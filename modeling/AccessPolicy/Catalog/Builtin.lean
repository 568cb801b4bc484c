import AccessPolicy.Catalog.Basic

/-!
# The built-in catalog

The services and actions that are known where no other catalog is given.
-/

namespace AccessPolicy.Catalog

/-- The built-in services with their actions. -/
def builtinPairs : List (String × List String) := [
  ("cloudformation", [
    "CreateStack", "DeleteStack", "DescribeStackEvents", "DescribeStackResources",
    "DescribeStacks", "GetTemplate", "ListStacks", "UpdateStack", "ValidateTemplate"]),
  ("cloudtrail", [
    "CreateTrail", "DeleteTrail", "DescribeTrails", "GetEventSelectors", "GetTrailStatus",
    "ListTrails", "LookupEvents", "PutEventSelectors", "StartLogging", "StopLogging",
    "UpdateTrail"]),
  ("dynamodb", [
    "BatchGetItem", "BatchWriteItem", "CreateTable", "DeleteItem", "DeleteTable",
    "DescribeTable", "GetItem", "ListTables", "PutItem", "Query", "Scan", "UpdateItem",
    "UpdateTable"]),
  ("ec2", [
    "AllocateAddress", "AssociateAddress", "AttachVolume", "AuthorizeSecurityGroupIngress",
    "CreateSecurityGroup", "CreateSnapshot", "CreateTags", "CreateVolume",
    "DeleteSecurityGroup", "DeleteSnapshot", "DeleteVolume", "DescribeImages",
    "DescribeInstances", "DescribeSecurityGroups", "DescribeSnapshots", "DescribeVolumes",
    "DetachVolume", "GetConsoleOutput", "GetPasswordData", "RebootInstances", "RunInstances",
    "StartInstances", "StopInstances", "TerminateInstances"]),
  ("iam", [
    "AddUserToGroup", "AttachGroupPolicy", "AttachRolePolicy", "AttachUserPolicy",
    "ChangePassword", "CreateAccessKey", "CreateGroup", "CreatePolicy", "CreateRole",
    "CreateUser", "DeleteAccessKey", "DeleteGroup", "DeletePolicy", "DeleteRole", "DeleteUser",
    "DetachRolePolicy", "DetachUserPolicy", "GetAccessKeyLastUsed", "GetGroup", "GetPolicy",
    "GetPolicyVersion", "GetRole", "GetUser", "ListAccessKeys", "ListAttachedRolePolicies",
    "ListAttachedUserPolicies", "ListGroups", "ListPolicies", "ListRoles", "ListUsers",
    "PassRole", "PutRolePolicy", "PutUserPolicy", "RemoveUserFromGroup", "UpdateAccessKey",
    "UpdateAssumeRolePolicy", "UpdateUser"]),
  ("kms", [
    "CreateAlias", "CreateGrant", "CreateKey", "Decrypt", "DescribeKey", "DisableKey",
    "EnableKey", "Encrypt", "GenerateDataKey", "ListAliases", "ListKeys", "ReEncryptFrom",
    "ReEncryptTo", "ScheduleKeyDeletion"]),
  ("lambda", [
    "AddPermission", "CreateFunction", "DeleteFunction", "GetFunction",
    "GetFunctionConfiguration", "InvokeFunction", "ListFunctions", "PublishVersion",
    "RemovePermission", "UpdateFunctionCode", "UpdateFunctionConfiguration"]),
  ("logs", [
    "CreateLogGroup", "CreateLogStream", "DeleteLogGroup", "DescribeLogGroups",
    "DescribeLogStreams", "FilterLogEvents", "GetLogEvents", "PutLogEvents",
    "PutRetentionPolicy"]),
  ("s3", [
    "AbortMultipartUpload", "CreateBucket", "DeleteBucket", "DeleteBucketPolicy",
    "DeleteObject", "DeleteObjectVersion", "GetBucketAcl", "GetBucketLocation",
    "GetBucketPolicy", "GetBucketVersioning", "GetObject", "GetObjectAcl", "GetObjectVersion",
    "ListAllMyBuckets", "ListBucket", "ListBucketVersions", "ListMultipartUploadParts",
    "PutBucketAcl", "PutBucketPolicy", "PutBucketVersioning", "PutObject", "PutObjectAcl",
    "RestoreObject"]),
  ("sns", [
    "CreateTopic", "DeleteTopic", "GetTopicAttributes", "ListSubscriptions", "ListTopics",
    "Publish", "SetTopicAttributes", "Subscribe", "Unsubscribe"]),
  ("sqs", [
    "ChangeMessageVisibility", "CreateQueue", "DeleteMessage", "DeleteQueue",
    "GetQueueAttributes", "GetQueueUrl", "ListQueues", "PurgeQueue", "ReceiveMessage",
    "SendMessage", "SetQueueAttributes"]),
  ("sts", [
    "AssumeRole", "AssumeRoleWithSAML", "AssumeRoleWithWebIdentity",
    "DecodeAuthorizationMessage", "GetCallerIdentity", "GetFederationToken", "GetSessionToken",
    "TagSession"])]

/-- The built-in catalog. -/
def builtin : Catalog := ofPairs builtinPairs

end AccessPolicy.Catalog
