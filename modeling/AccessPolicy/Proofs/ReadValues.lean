import AccessPolicy.Json.RoundTrip
import AccessPolicy.Proofs.Except
import AccessPolicy.Proofs.Members
import Mathlib.Tactic.SplitIfs

/-!
# What can be read

A value that was read from a text is limited in two ways: it has no more arrays and objects in one
another than the reader lets be open, and its integers have 64 bits.  `Fits limit level v` says this
of a value that stands inside of `level` arrays and objects, so that it can be taken apart level by
level (`fits_array_iff`, `fits_object_iff`).

The reader keeps what it has read so far in a stack of frames.  Every token leads from a position
whose frames fit to another one (`Position.Fits.step`), hence so does a whole text, and what is left
in the end is a value that fits.  To bring it into canonical form can only make it smaller.

A lower limit never changes what is read but by refusing it (`read_of_limit_le`).  As the text of a
value is read with a limit that is high enough, it is refused with one that is not.

Main statements: `fits_of_ofText`, `read_text_of_limit_lt`.
-/

namespace AccessPolicy.Json

/-- The values of the members, in order. -/
def Members.values (members : Members) : List Json := members.map (·.2)

/-! ### Numbers in a value -/

mutual

/-- The numbers in a value. -/
def numbers : Json → List Number
  | .number n => [n]
  | .array items => numbersOfItems items
  | .object members => numbersOfMembers members
  | .null | .bool _ | .string _ => []

/-- The numbers in the items of an array. -/
def numbersOfItems : List Json → List Number
  | [] => []
  | v :: rest => numbers v ++ numbersOfItems rest

/-- The numbers in the members of an object. -/
def numbersOfMembers : List (String × Json) → List Number
  | [] => []
  | (_, v) :: rest => numbers v ++ numbersOfMembers rest

end

@[simp] theorem mem_numbersOfItems_iff {n : Number} {items : List Json} :
    n ∈ numbersOfItems items ↔ ∃ v ∈ items, n ∈ v.numbers := by
  induction items with
  | nil => simp [numbersOfItems]
  | cons v rest ih => simp [numbersOfItems, ih]

theorem numbersOfMembers_eq (members : Members) :
    numbersOfMembers members = numbersOfItems members.values := by
  induction members with
  | nil => rfl
  | cons member rest ih => exact congrArg (member.2.numbers ++ ·) ih

@[simp] theorem mem_numbersOfMembers_iff {n : Number} {members : Members} :
    n ∈ numbersOfMembers members ↔ ∃ member ∈ members, n ∈ member.2.numbers := by
  rw [numbersOfMembers_eq, mem_numbersOfItems_iff]
  constructor
  · rintro ⟨v, hv, hn⟩
    obtain ⟨member, hmember, rfl⟩ := List.mem_map.1 hv
    exact ⟨member, hmember, hn⟩
  · rintro ⟨member, hmember, hn⟩
    exact ⟨member.2, List.mem_map_of_mem hmember, hn⟩

mutual

/-- A value is integral if all numbers in it are. -/
theorem integral_iff : (v : Json) → (v.Integral ↔ ∀ n ∈ v.numbers, (Token.number n).Integral)
  | .null | .bool _ | .string _ => by simp [Integral, numbers]
  | .number (.int _) | .number (.double _) => by simp [Integral, numbers, Token.Integral]
  | .array items => integralItems_iff items
  | .object members => integralMembers_iff members

theorem integralItems_iff : (items : List Json) →
    (IntegralItems items ↔ ∀ n ∈ numbersOfItems items, (Token.number n).Integral)
  | [] => by simp [IntegralItems, numbersOfItems]
  | v :: rest => by
    rw [IntegralItems, numbersOfItems, List.forall_mem_append, integral_iff v,
      integralItems_iff rest]

theorem integralMembers_iff : (members : List (String × Json)) →
    (IntegralMembers members ↔ ∀ n ∈ numbersOfMembers members, (Token.number n).Integral)
  | [] => by simp [IntegralMembers, numbersOfMembers]
  | (_, v) :: rest => by
    rw [IntegralMembers, numbersOfMembers, List.forall_mem_append, integral_iff v,
      integralMembers_iff rest]

end

/-! ### Levels of a value -/

@[simp] theorem depthOfItems_le_iff {n : Nat} {items : List Json} :
    depthOfItems items ≤ n ↔ ∀ v ∈ items, v.depth ≤ n := by
  induction items with
  | nil => simp [depthOfItems]
  | cons v rest ih => rw [depthOfItems, Nat.max_le, ih, List.forall_mem_cons]

theorem depthOfMembers_eq (members : Members) :
    depthOfMembers members = depthOfItems members.values := by
  induction members with
  | nil => rfl
  | cons member rest ih => exact congrArg (max member.2.depth) ih

theorem depth_array_le_succ_iff {n : Nat} {items : List Json} :
    (Json.array items).depth ≤ n + 1 ↔ ∀ v ∈ items, v.depth ≤ n := by
  rw [depth, Nat.succ_le_succ_iff, depthOfItems_le_iff]

theorem depth_object_le_succ_iff {n : Nat} {members : Members} :
    (Json.object members).depth ≤ n + 1 ↔ ∀ member ∈ members, member.2.depth ≤ n := by
  rw [depth, Nat.succ_le_succ_iff, depthOfMembers_eq, depthOfItems_le_iff, Members.values,
    List.forall_mem_map]

/-- An integer that is read has 64 bits. -/
def Number.Readable : Number → Prop
  | .int i => Numeral.InRange i
  | .double _ => True

/-- A value that stands inside of `level` arrays and objects is within the limit, and its integers
have 64 bits. -/
structure Fits (limit level : Nat) (v : Json) : Prop where
  depth_le : level + v.depth ≤ limit
  readable : ∀ n ∈ v.numbers, n.Readable

section
variable {limit level : Nat}

@[simp] theorem fits_array_iff {items : List Json} :
    Fits limit level (.array items) ↔
      level < limit ∧ ∀ v ∈ items, Fits limit (level + 1) v := by
  constructor
  · rintro ⟨hdepth, hreadable⟩
    rw [depth] at hdepth
    refine ⟨by omega, fun v hv => ⟨?_, ?_⟩⟩
    · have hle : v.depth ≤ depthOfItems items := depthOfItems_le_iff.1 (Nat.le_refl _) v hv
      omega
    · exact fun n hn => hreadable n (mem_numbersOfItems_iff.2 ⟨v, hv, hn⟩)
  · rintro ⟨hlevel, hitems⟩
    constructor
    · have hle : depthOfItems items ≤ limit - (level + 1) := by
        apply depthOfItems_le_iff.2
        intro v hv
        have := (hitems v hv).depth_le
        omega
      rw [depth]
      omega
    · intro n hn
      obtain ⟨v, hv, hn⟩ := mem_numbersOfItems_iff.1 hn
      exact (hitems v hv).readable n hn

@[simp] theorem fits_object_iff {members : Members} :
    Fits limit level (.object members) ↔
      level < limit ∧ ∀ member ∈ members, Fits limit (level + 1) member.2 := by
  -- the names of the members play no part
  have hvalues : Fits limit level (.object members) ↔
      Fits limit level (.array members.values) := by
    have hdepth : (Json.object members).depth = (Json.array members.values).depth :=
      congrArg (· + 1) (depthOfMembers_eq members)
    have hnumbers : (Json.object members).numbers = (Json.array members.values).numbers :=
      numbersOfMembers_eq members
    constructor
    · rintro ⟨hle, hreadable⟩
      exact ⟨hdepth ▸ hle, hnumbers ▸ hreadable⟩
    · rintro ⟨hle, hreadable⟩
      exact ⟨hdepth ▸ hle, hnumbers ▸ hreadable⟩
  rw [hvalues, fits_array_iff, Members.values, List.forall_mem_map]

/-- A part that is found in an object stands one level further inside. -/
theorem Fits.get? {members : Members} {name : String} {v : Json}
    (h : Fits limit level (.object members)) (hv : members.get? name = some v) :
    Fits limit (level + 1) v :=
  (fits_object_iff.1 h).2 (name, v) (Members.mem_of_get?_eq_some hv)

/-! ### Canonical forms -/

mutual

/-- The canonical form of a value fits where the value does. -/
theorem Fits.canonical {limit level : Nat} :
    (v : Json) → Fits limit level v → Fits limit level v.canonical
  | .array items, h => by
    obtain ⟨hlevel, hitems⟩ := fits_array_iff.1 h
    exact fits_array_iff.2 ⟨hlevel, Fits.canonicalItems items hitems⟩
  | .object members, h => by
    obtain ⟨hlevel, hmembers⟩ := fits_object_iff.1 h
    exact fits_object_iff.2 ⟨hlevel, Fits.canonicalMembers members hmembers⟩
  | .null, h | .bool _, h | .number _, h | .string _, h => h

theorem Fits.canonicalItems {limit level : Nat} : (items : List Json) →
    (∀ v ∈ items, Fits limit level v) → ∀ v ∈ canonicalItems items, Fits limit level v
  | [], h => h
  | v :: rest, h => by
    obtain ⟨hv, hrest⟩ := List.forall_mem_cons.1 h
    exact List.forall_mem_cons.2 ⟨Fits.canonical v hv, Fits.canonicalItems rest hrest⟩

theorem Fits.canonicalMembers {limit level : Nat} : (members : List (String × Json)) →
    (∀ member ∈ members, Fits limit level member.2) →
    ∀ member ∈ canonicalMembers members, Fits limit level member.2
  | [], h => h
  | (k, v) :: rest, h => by
    obtain ⟨hv, hrest⟩ := List.forall_mem_cons.1 h
    intro member hmember
    rcases Members.mem_insertNew hmember with rfl | hmember
    · exact Fits.canonical v hv
    · exact Fits.canonicalMembers rest hrest member hmember

end

end

/-! ### Tokens -/

/-- A numeral that stands for an integer stands for one of 64 bits. -/
theorem Numeral.readable_of_number? {numeral : Numeral} {n : Number}
    (h : numeral.number? = some n) : n.Readable := by
  unfold number? at h
  split at h
  · rename_i i hint
    obtain rfl := Option.some.inj h
    unfold int? at hint
    show -(twoTo 63 : Int) ≤ i ∧ i < (twoTo 64 : Int)
    have htwoTo : twoTo 63 ≤ twoTo 64 := twoTo_le_twoTo (by decide)
    split_ifs at hint with _ hnegative hle hlt
    · obtain rfl := Option.some.inj hint
      omega
    · obtain rfl := Option.some.inj hint
      omega
  · obtain ⟨magnitude, _, rfl⟩ := Option.map_eq_some_iff.1 h
    trivial

/-- An integer among the tokens has 64 bits. -/
def Token.Readable (t : Token) : Prop := ∀ n, t = .number n → n.Readable

theorem Token.readable_of_scan {c : Char} {cs rest : List Char} {t : Token}
    (h : scan c cs = .ok (t, rest)) : t.Readable := by
  obtain ⟨front, hspelled, _⟩ := Token.spelledAs_of_scan h
  rintro n rfl
  cases hspelled with
  | number _ hnumber => exact Numeral.readable_of_number? hnumber

theorem Lexed.readable_of_mem (cs : List Char) : ∀ t ∈ (ofChars cs).tokens, t.Readable := by
  fun_induction ofChars cs with
  | case1 => simp
  | case2 _ _ _ ih => exact ih
  | case3 _ _ _ _ _ hscan _ ih =>
    exact List.forall_mem_cons.2 ⟨Token.readable_of_scan hscan, ih⟩
  | case4 => simp

/-! ### Positions -/

/-- The values that were read in an array or object that is still open. -/
def Frame.parts : Frame → List Json
  | .items _ parts => parts
  | .member _ members _ => members.values

/-- What was read so far in open arrays and objects is within the limit. -/
def FramesFit (limit : Nat) : List Frame → Prop
  | [] => True
  | frame :: outer =>
    outer.length < limit ∧ (∀ v ∈ frame.parts, Fits limit (outer.length + 1) v) ∧
      FramesFit limit outer

theorem FramesFit.length_le {limit : Nat} {outer : List Frame} (h : FramesFit limit outer) :
    outer.length ≤ limit := by
  cases outer with
  | nil => exact Nat.zero_le limit
  | cons frame outer => exact h.1

namespace Position
variable {limit : Nat} {outer : List Frame} {p q : Position} {t : Token} {v : Json}

/-- What was read so far is within the limit.  A place inside an array or object counts it among the
open ones. -/
def Fits (limit : Nat) : Position → Prop
  | .atValue outer _ => FramesFit limit outer
  | .atItemOrEnd outer shape => FramesFit limit (.items shape [] :: outer)
  | .atNameOrEnd outer shape => FramesFit limit (.member shape [] "" :: outer)
  | .atName outer shape members => FramesFit limit (.member shape members "" :: outer)
  | .atColon outer shape members name => FramesFit limit (.member shape members name :: outer)
  | .afterItem outer shape items => FramesFit limit (.items shape items :: outer)
  | .afterMember outer shape members => FramesFit limit (.member shape members "" :: outer)
  | .done v => Json.Fits limit 0 v

/-- A value that was read becomes part of the innermost array or object. -/
theorem fits_complete (houter : FramesFit limit outer) (hv : Json.Fits limit outer.length v) :
    (complete outer v).Fits limit := by
  cases outer with
  | nil => exact hv
  | cons frame outer =>
    obtain ⟨hlength, hparts, houter⟩ := houter
    cases frame with
    | items shape items => exact ⟨hlength, List.forall_mem_cons.2 ⟨hv, hparts⟩, houter⟩
    | member shape members name =>
      exact ⟨hlength, List.forall_mem_cons.2 ⟨hv, hparts⟩, houter⟩

/-- A scalar fits wherever a value can stand. -/
theorem fits_of_scalar? (ht : t.Readable) (houter : FramesFit limit outer)
    (h : t.scalar? = some v) : Json.Fits limit outer.length v := by
  have hlength := houter.length_le
  cases t <;> cases h
  case number n =>
    refine ⟨hlength, fun m hm => ?_⟩
    rw [List.mem_singleton.1 hm]
    exact ht n rfl
  all_goals exact ⟨hlength, fun m hm => absurd hm List.not_mem_nil⟩

/-- An array or object is only begun where one more may be open. -/
theorem fits_of_begin {shape : Shape} (ht : t.Readable) (houter : FramesFit limit outer)
    (h : begin limit outer shape t = .ok q) : q.Fits limit := by
  obtain ⟨_, _, _, hlength, rfl⟩ | ⟨_, _, _, hlength, rfl⟩ | ⟨v, hscalar, _, rfl⟩ := begin_cases h
  · exact ⟨hlength, List.forall_mem_nil _, houter⟩
  · exact ⟨hlength, List.forall_mem_nil _, houter⟩
  · exact fits_complete houter (fits_of_scalar? ht houter hscalar)

theorem fits_closeArray {shape : Shape} {items : List Json}
    (h : FramesFit limit (.items shape items :: outer)) :
    (complete outer (.array items.reverse)).Fits limit := by
  obtain ⟨hlength, hitems, houter⟩ := h
  refine fits_complete houter (fits_array_iff.2 ⟨hlength, fun v hv => ?_⟩)
  exact hitems v (List.mem_reverse.1 hv)

theorem fits_closeObject {shape : Shape} {members : Members} {name : String}
    (h : FramesFit limit (.member shape members name :: outer)) :
    (complete outer (.object members.reverse)).Fits limit := by
  obtain ⟨hlength, hmembers, houter⟩ := h
  refine fits_complete houter (fits_object_iff.2 ⟨hlength, fun member hmember => ?_⟩)
  exact hmembers member.2 (List.mem_map_of_mem (List.mem_reverse.1 hmember))

/-- One token keeps what was read within the limit. -/
theorem Fits.step (hp : p.Fits limit) (ht : t.Readable) (h : step limit p t = .ok q) :
    q.Fits limit := by
  unfold Position.step at h
  split at h
  case h_1 => exact fits_of_begin ht hp h
  case h_2 =>
    obtain rfl := Except.ok.inj h
    exact fits_closeArray hp
  case h_3 => exact fits_of_begin ht hp h
  case h_4 =>
    obtain rfl := Except.ok.inj h
    exact fits_closeObject hp
  case h_9 =>
    obtain rfl := Except.ok.inj h
    exact fits_closeArray hp
  case h_11 =>
    obtain rfl := Except.ok.inj h
    exact fits_closeObject hp
  case h_12 => cases h
  -- the others go on in the same array or object
  all_goals
    obtain rfl := Except.ok.inj h
    exact hp

/-- So do all tokens of a text. -/
theorem Fits.foldlM {tokens : List Token} (ht : ∀ t ∈ tokens, t.Readable) (hp : p.Fits limit)
    (h : tokens.foldlM (Position.step limit) p = .ok q) : q.Fits limit :=
  Except.of_foldlM_eq_ok (P := fun _ p => p.Fits limit) []
    (fun _ t hmem _ _ hp hstep => hp.step (ht t hmem) hstep) hp h

/-- Where less may be open, an array or object may be refused, and nothing else changes. -/
theorem begin_of_limit_le {limit' : Nat} {shape : Shape} (h : limit ≤ limit') :
    begin limit outer shape t = begin limit' outer shape t ∨
      begin limit outer shape t = .error .malformed := by
  by_cases houter : outer.length < limit
  · have houter' : outer.length < limit' := by omega
    left
    unfold begin
    simp only [if_pos houter, if_pos houter']
  · unfold begin
    split
    · split
      · exact Or.inr (if_neg houter)
      · exact Or.inl rfl
    · split
      · exact Or.inr (if_neg houter)
      · exact Or.inl rfl
    · exact Or.inl rfl

theorem step_of_limit_le {limit' : Nat} (h : limit ≤ limit') :
    step limit p t = step limit' p t ∨ step limit p t = .error .malformed := by
  unfold step
  split
  case h_1 | h_3 => exact begin_of_limit_le h
  all_goals exact Or.inl rfl

theorem foldlM_of_limit_le {limit' : Nat} {tokens : List Token} (h : limit ≤ limit') :
    tokens.foldlM (step limit) p = tokens.foldlM (step limit') p ∨
      tokens.foldlM (step limit) p = .error .malformed := by
  have hstep (p : Position) (t : Token) :
      (step limit p t).map id = step limit' (id p) t ∨ step limit p t = .error .malformed := by
    rw [Except.map_id]
    exact step_of_limit_le h
  have hrun := Except.foldlM_map_or_error hstep tokens p
  rwa [Except.map_id] at hrun

/-- Only what is done gives a value, and only without a defect behind it. -/
@[simp] theorem finish_eq_ok_iff {defect : Option Defect} :
    p.finish defect = .ok v ↔ p = .done v ∧ defect = none := by
  constructor
  · intro h
    unfold finish at h
    split at h
    · exact ⟨congrArg done (Except.ok.inj h), rfl⟩
    all_goals cases h
  · rintro ⟨rfl, rfl⟩
    rfl

end Position

/-! ### Whole texts -/

/-- Where a text is read, its tokens lead to the value and there is no defect. -/
theorem foldlM_of_read {limit : Nat} {shape : Shape} {text : String} {v : Json}
    (h : read limit shape text = .ok v) :
    (Lexed.ofChars text.toList).tokens.foldlM (Position.step limit) (.atValue [] shape) =
        .ok (.done v) ∧
      (Lexed.ofChars text.toList).defect = none := by
  obtain ⟨p, hp, hfinish⟩ := Except.bind_eq_ok_iff.1 h
  obtain ⟨rfl, hdefect⟩ := Position.finish_eq_ok_iff.1 hfinish
  exact ⟨hp, hdefect⟩

theorem fits_of_read {limit : Nat} {shape : Shape} {text : String} {v : Json}
    (h : read limit shape text = .ok v) : Fits limit 0 v := by
  have hstart : (Position.atValue [] shape).Fits limit := trivial
  exact hstart.foldlM (Lexed.readable_of_mem _) (foldlM_of_read h).1

/-- A text is read with a lower limit as with a higher one, or refused. -/
theorem read_of_limit_le {limit limit' : Nat} {shape : Shape} {text : String}
    (h : limit ≤ limit') :
    read limit shape text = read limit' shape text ∨
      read limit shape text = .error .malformed := by
  unfold read
  dsimp only
  rcases Position.foldlM_of_limit_le h with hsteps | hsteps
  · rw [hsteps]
    exact Or.inl rfl
  · rw [hsteps]
    exact Or.inr rfl

/-- The text of a value with too many arrays and objects in one another is refused. -/
theorem read_text_of_limit_lt {v : Json} (h : v.Integral) {limit : Nat} (hlimit : limit < v.depth) :
    read limit .any v.text = .error .malformed := by
  have hread : read v.depth .any v.text = .ok v := read_text h (Nat.le_refl _)
  rcases read_of_limit_le (Nat.le_of_lt hlimit) with hsame | hrefused
  · -- what is read within the limit is within the limit
    rw [hread] at hsame
    have hdepth := (fits_of_read hsame).depth_le
    omega
  · exact hrefused

/-- **A document that was read is within the limit, and is in canonical form.** -/
theorem fits_of_ofText {text : String} {v : Json} (h : ofText text = .ok v) :
    Fits depthLimit 0 v ∧ v.Canonical := by
  obtain ⟨w, hw, rfl⟩ := Except.map_eq_ok_iff.1 h
  exact ⟨Fits.canonical w (fits_of_read hw), canonical_canonical w⟩

end AccessPolicy.Json
