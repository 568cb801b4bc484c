/-!
# Results of computations that can fail

When a step of a computation that may fail gives a result, so did everything before it; when the
computation fails, exactly one step has.  Proofs about the readers of documents and about the
evaluation of requests take such computations apart with these equivalences and never unfold the
monad.  Of a run, which takes one item after the other, it is enough to look at a single step
(`Except.of_foldlM_eq_ok`, `Except.foldlM_map_or_error`).
-/

namespace Except
variable {ε α β : Type}

/-! ### Steps -/

@[simp] theorem pure_def (a : α) : (pure a : Except ε α) = ok a := rfl

@[simp] theorem ok_bind (a : α) (f : α → Except ε β) : (ok a : Except ε α) >>= f = f a := rfl

@[simp] theorem error_bind (cause : ε) (f : α → Except ε β) :
    (error cause : Except ε α) >>= f = error cause := rfl

@[simp] theorem ok_map (a : α) (f : α → β) : (ok a : Except ε α).map f = ok (f a) := rfl

@[simp] theorem error_map (cause : ε) (f : α → β) :
    (error cause : Except ε α).map f = error cause := rfl

/-! ### Results -/

@[simp] theorem map_eq_ok_iff {f : α → β} {x : Except ε α} {b : β} :
    x.map f = .ok b ↔ ∃ a, x = .ok a ∧ f a = b := by
  cases x <;> simp

@[simp] theorem bind_eq_ok_iff {f : α → Except ε β} {x : Except ε α} {b : β} :
    x >>= f = .ok b ↔ ∃ a, x = .ok a ∧ f a = .ok b := by
  cases x <;> simp

/-! ### Failures -/

@[simp] theorem map_eq_error_iff {f : α → β} {x : Except ε α} {cause : ε} :
    x.map f = .error cause ↔ x = .error cause := by
  cases x <;> simp

@[simp] theorem mapError_eq_error_iff {ε' : Type} {f : ε → ε'} {x : Except ε α} {cause : ε'} :
    x.mapError f = .error cause ↔ ∃ cause', x = .error cause' ∧ f cause' = cause := by
  cases x with
  | error cause' =>
    change Except.error (f cause') = .error cause ↔ _
    simp
  | ok a =>
    change Except.ok a = .error cause ↔ _
    simp

@[simp] theorem bind_eq_error_iff {f : α → Except ε β} {x : Except ε α} {cause : ε} :
    x >>= f = .error cause ↔ x = .error cause ∨ ∃ a, x = .ok a ∧ f a = .error cause := by
  cases x <;> simp

/-! ### Runs -/

/-- What every item of a run keeps holds at its end.  It may speak of the items taken so far. -/
theorem of_foldlM_eq_ok {f : β → α → Except ε β} {P : List α → β → Prop}
    {items : List α} {b b' : β} (before : List α)
    (hstep : ∀ before, ∀ a ∈ items, ∀ b b', P before b → f b a = ok b' → P (before ++ [a]) b')
    (hb : P before b) (h : items.foldlM f b = ok b') : P (before ++ items) b' := by
  induction items generalizing before b with
  | nil =>
    rw [List.append_nil]
    exact ok.inj h ▸ hb
  | cons a items ih =>
    rw [List.foldlM_cons] at h
    obtain ⟨c, hc, h⟩ := bind_eq_ok_iff.1 h
    have hfirst : P (before ++ [a]) c := hstep before a List.mem_cons_self b c hb hc
    have hrest := ih (before ++ [a])
      (fun before x hx => hstep before x (List.mem_cons_of_mem a hx)) hfirst h
    rwa [List.append_assoc, List.singleton_append] at hrest

/-- Two runs that go in step, unless the first ends with `cause`, have the same end. -/
theorem foldlM_map_or_error {γ : Type} {f : β → α → Except ε β} {g : γ → α → Except ε γ}
    {r : β → γ} {cause : ε}
    (hstep : ∀ b a, (f b a).map r = g (r b) a ∨ f b a = error cause) (items : List α) (b : β) :
    (items.foldlM f b).map r = items.foldlM g (r b) ∨ items.foldlM f b = error cause := by
  induction items generalizing b with
  | nil => exact Or.inl rfl
  | cons a items ih =>
    rw [List.foldlM_cons, List.foldlM_cons]
    rcases hstep b a with h | h
    · rw [← h]
      cases f b a with
      | error fault => exact Or.inl rfl
      | ok c => exact ih c
    · rw [h]
      exact Or.inr rfl

end Except
