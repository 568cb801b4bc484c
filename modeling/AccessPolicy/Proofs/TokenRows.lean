import AccessPolicy.Proofs.ReadValues

/-!
# The tokens of a value

The reader goes through the tokens of a text once and keeps what it has read so far in a stack of
frames.  Nothing gets lost on the way: wherever it stands, the tokens behind it are those in which
the frames are written down (`Position.Writes`), and each token that it reads is one more of them
(`Position.Writes.step`).  So the tokens of a text that is read as a value are the tokens of this
value (`ofChars_of_read`).

As the tokens do not depend on what kind of value was asked for, a text that was read without asking
can be read again by a reader that asks, if the value is what it asks for (`read_of_shape`).

Main statements: `ofChars_of_read`, `read_of_shape`.
-/

namespace AccessPolicy.Json

/-! ### Rows of parts -/

/-- The items of an array, the last one first, as they are written before a further item. -/
def itemsBefore : List Json → List Token
  | [] => []
  | v :: before => itemsBefore before ++ v.tokens ++ [.comma]

/-- The members of an object, the last one first, as they are written before a further member. -/
def membersBefore : Members → List Token
  | [] => []
  | (name, v) :: before => membersBefore before ++ .string name :: .colon :: v.tokens ++ [.comma]

/-- An array is written as its items up to one of them and the items after this one. -/
theorem tokens_array_reverse_append (before : List Json) (v : Json) (rest : List Json) :
    (Json.array (before.reverse ++ v :: rest)).tokens =
      .openArray :: itemsBefore before ++ v.tokens ++ furtherItems rest := by
  induction before generalizing v rest with
  | nil => rfl
  | cons w before ih =>
    rw [List.reverse_cons, List.append_assoc, List.singleton_append, ih, itemsBefore, furtherItems]
    simp only [List.append_assoc, List.cons_append, List.nil_append]

theorem tokens_object_reverse_append (before : Members) (name : String) (v : Json)
    (rest : Members) :
    (Json.object (before.reverse ++ (name, v) :: rest)).tokens =
      .openObject :: membersBefore before ++ .string name :: .colon :: v.tokens ++
        furtherMembers rest := by
  induction before generalizing name v rest with
  | nil => rfl
  | cons member before ih =>
    obtain ⟨name', w⟩ := member
    rw [List.reverse_cons, List.append_assoc, List.singleton_append, ih, membersBefore,
      furtherMembers]
    simp only [List.append_assoc, List.cons_append, List.nil_append]

/-! ### Open arrays and objects -/

/-- The tokens of an array or object that is still open, up to where its next value stands. -/
def Frame.row : Frame → List Token
  | .items _ parts => .openArray :: itemsBefore parts
  | .member _ members name => .openObject :: membersBefore members ++ [.string name, .colon]

/-- The tokens of all that is open, from the outermost array or object on. -/
def framesRow : List Frame → List Token
  | [] => []
  | frame :: outer => framesRow outer ++ frame.row

namespace Position
variable {limit : Nat} {outer : List Frame} {shape : Shape} {p q : Position} {t : Token} {v : Json}
  {row : List Token}

/-- The tokens are what stands before a position. -/
def Writes (row : List Token) : Position → Prop
  | .atValue outer _ => row = framesRow outer
  | .atItemOrEnd outer _ => row = framesRow outer ++ [.openArray]
  | .atNameOrEnd outer _ => row = framesRow outer ++ [.openObject]
  | .atName outer _ members => row = framesRow outer ++ .openObject :: membersBefore members
  | .atColon outer _ members name =>
    row = framesRow outer ++ .openObject :: membersBefore members ++ [.string name]
  | .afterItem outer _ items => ∃ v before, items = v :: before ∧
      row = framesRow outer ++ .openArray :: itemsBefore before ++ v.tokens
  | .afterMember outer _ members => ∃ name v before, members = (name, v) :: before ∧
      row = framesRow outer ++ .openObject :: membersBefore before ++
        .string name :: .colon :: v.tokens
  | .done v => row = v.tokens

theorem writes_complete (outer : List Frame) (v : Json) :
    (complete outer v).Writes (framesRow outer ++ v.tokens) := by
  cases outer with
  | nil => rfl
  | cons frame outer =>
    cases frame with
    | items shape items => exact ⟨v, items, rfl, rfl⟩
    | member shape members name =>
      refine ⟨name, v, members, rfl, ?_⟩
      simp only [framesRow, Frame.row, List.append_assoc, List.cons_append, List.nil_append]

/-- A scalar is written as its token. -/
theorem tokens_of_scalar? (h : t.scalar? = some v) : v.tokens = [t] := by
  cases t <;> cases h <;> rfl

theorem writes_of_begin (h : begin limit outer shape t = .ok q) :
    q.Writes (framesRow outer ++ [t]) := by
  obtain ⟨_, rfl, _, _, rfl⟩ | ⟨_, rfl, _, _, rfl⟩ | ⟨v, hscalar, _, rfl⟩ := begin_cases h
  · rfl
  · rfl
  · rw [← tokens_of_scalar? hscalar]
    exact writes_complete outer v

/-- The end of an array completes it. -/
theorem writes_closeArray {items : List Json}
    (hp : (Position.afterItem outer shape items).Writes row) :
    (complete outer (.array items.reverse)).Writes (row ++ [.closeArray]) := by
  obtain ⟨v, before, rfl, rfl⟩ := hp
  have htokens := tokens_array_reverse_append before v []
  rw [← List.reverse_cons] at htokens
  have hcomplete := writes_complete outer (.array (v :: before).reverse)
  rw [htokens] at hcomplete
  simpa only [furtherItems, List.append_assoc] using hcomplete

theorem writes_closeObject {members : Members}
    (hp : (Position.afterMember outer shape members).Writes row) :
    (complete outer (.object members.reverse)).Writes (row ++ [.closeObject]) := by
  obtain ⟨name, v, before, rfl, rfl⟩ := hp
  have htokens := tokens_object_reverse_append before name v []
  rw [← List.reverse_cons] at htokens
  have hcomplete := writes_complete outer (.object ((name, v) :: before).reverse)
  rw [htokens] at hcomplete
  simpa only [furtherMembers, List.append_assoc] using hcomplete

/-- One token more is read, and one token more stands before the position. -/
theorem Writes.step (hp : p.Writes row) (h : step limit p t = .ok q) : q.Writes (row ++ [t]) := by
  unfold Position.step at h
  split at h
  case h_1 =>
    subst hp
    exact writes_of_begin h
  case h_2 outer _ =>
    -- an array without items
    obtain rfl := Except.ok.inj h
    subst hp
    rw [List.append_assoc]
    exact writes_complete outer (.array [])
  case h_3 =>
    -- the first item, in an array that is a frame from now on
    subst hp
    exact writes_of_begin h
  case h_4 outer _ =>
    -- an object without members
    obtain rfl := Except.ok.inj h
    subst hp
    rw [List.append_assoc]
    exact writes_complete outer (.object [])
  case h_5 | h_6 =>
    -- the name of a member
    obtain rfl := Except.ok.inj h
    subst hp
    rfl
  case h_7 =>
    -- the colon after the name, which the frame of the member writes
    obtain rfl := Except.ok.inj h
    subst hp
    simp only [Writes, framesRow, Frame.row, List.append_assoc, List.cons_append, List.nil_append]
  case h_8 =>
    -- the comma after an item
    obtain rfl := Except.ok.inj h
    obtain ⟨v, before, rfl, rfl⟩ := hp
    simp only [Writes, framesRow, Frame.row, itemsBefore, List.append_assoc, List.cons_append]
  case h_9 =>
    obtain rfl := Except.ok.inj h
    exact writes_closeArray hp
  case h_10 =>
    -- the comma after a member
    obtain rfl := Except.ok.inj h
    obtain ⟨name, v, before, rfl, rfl⟩ := hp
    simp only [Writes, membersBefore, List.append_assoc, List.cons_append]
  case h_11 =>
    obtain rfl := Except.ok.inj h
    exact writes_closeObject hp
  case h_12 => cases h

/-- So with all tokens of a row. -/
theorem Writes.foldlM {tokens : List Token} (hp : p.Writes row)
    (h : tokens.foldlM (Position.step limit) p = .ok q) : q.Writes (row ++ tokens) :=
  Except.of_foldlM_eq_ok (P := Writes) row (fun _ _ _ _ _ hp hstep => hp.step hstep) hp h

end Position

/-! ### Whole texts -/

variable {limit : Nat} {shape : Shape} {text : String} {v : Json}

/-- **A text that is read as a value has the tokens of this value.** -/
theorem ofChars_of_read (h : read limit shape text = .ok v) :
    Lexed.ofChars text.toList = ⟨v.tokens, none⟩ := by
  have hstart : (Position.atValue [] shape).Writes [] := rfl
  obtain ⟨hsteps, hdefect⟩ := foldlM_of_read h
  have htokens : (Lexed.ofChars text.toList).tokens = v.tokens := hstart.foldlM hsteps
  rw [← htokens, ← hdefect]

/-- What was read is read again where a value of its shape is asked for. -/
theorem read_of_shape (h : read limit .any text = .ok v) (hshape : shape.Holds v) :
    read limit shape text = .ok v := by
  have hdepth : v.depth ≤ limit := by
    have hle := (fits_of_read h).depth_le
    omega
  exact read_of_ofChars (ofChars_of_read h) hdepth hshape

end AccessPolicy.Json
