import Mathlib.Tactic.SplitIfs

/-!
# Texts in order of their bytes

Names are put in order by code points.  This is also the order of their bytes in UTF-8, compared one
after the other: in the encodings of two characters the first bytes that differ stand at the same
place, and the greater byte belongs to the greater code point (`Text.encode_append_lt`).

Main statements: `Text.lt_iff_bytes_lt` and `Text.le_iff_bytes_le`.
-/

namespace AccessPolicy.Text

/-- The bytes of a text in UTF-8. -/
def bytes (s : String) : List UInt8 := s.toUTF8.data.toList

theorem bytes_eq_flatMap (s : String) : bytes s = s.toList.flatMap String.utf8EncodeChar := by
  have hs : s.toUTF8 = s.toList.utf8Encode := by
    rw [String.toUTF8_eq_toByteArray]
    conv => lhs; rw [← String.ofList_toList (s := s), String.toByteArray_ofList]
  rw [bytes, hs, List.utf8Encode, List.data_toByteArray]

/-! ### Two characters -/

theorem ofNat_lt_ofNat_iff {m n : Nat} (hm : m < 256) (hn : n < 256) :
    UInt8.ofNat m < UInt8.ofNat n ↔ m < n := by
  rw [UInt8.lt_iff_toNat_lt, UInt8.toNat_ofNat_of_lt' hm, UInt8.toNat_ofNat_of_lt' hn]

theorem ofNat_eq_ofNat_iff {m n : Nat} (hm : m < 256) (hn : n < 256) :
    UInt8.ofNat m = UInt8.ofNat n ↔ m = n := by
  rw [← UInt8.toNat_inj, UInt8.toNat_ofNat_of_lt' hm, UInt8.toNat_ofNat_of_lt' hn]

/-- A character with a smaller code point is encoded by smaller bytes, whatever follows. -/
theorem encode_append_lt {c d : Char} (h : c < d) (xs ys : List UInt8) :
    String.utf8EncodeChar c ++ xs < String.utf8EncodeChar d ++ ys := by
  have hlt : c.val.toNat < d.val.toNat := h
  have hd : d.val.toNat < 1114112 := by
    rcases d.valid with hd | hd <;> omega
  unfold String.utf8EncodeChar
  generalize c.val.toNat = v at *
  generalize d.val.toNat = w at *
  -- the digits to base 64, one from the other
  have hdigit : ∀ n, n / 4096 = n / 64 / 64 := fun n => by omega
  have hdigit' : ∀ n, n / 262144 = n / 64 / 64 / 64 := fun n => by omega
  simp only [hdigit, hdigit']
  -- one case for each two lengths; if these differ already the first bytes do
  split_ifs <;>
    simp (disch := omega) only [List.cons_append, List.nil_append, List.cons_lt_cons_iff,
      ofNat_lt_ofNat_iff, ofNat_eq_ofNat_iff] <;>
    omega

theorem encode_ne_nil (c : Char) : String.utf8EncodeChar c ≠ [] := by
  unfold String.utf8EncodeChar
  dsimp only
  split_ifs <;> exact List.cons_ne_nil _ _

/-! ### Two texts -/

theorem flatMap_encode_lt {cs ds : List Char} (h : cs < ds) :
    cs.flatMap String.utf8EncodeChar < ds.flatMap String.utf8EncodeChar := by
  induction cs generalizing ds with
  | nil =>
    cases ds with
    | nil => cases h
    | cons d ds =>
      obtain ⟨b, bs, hb⟩ := List.exists_cons_of_ne_nil (encode_ne_nil d)
      rw [List.flatMap_nil, List.flatMap_cons, hb]
      exact List.nil_lt_cons b _
  | cons c cs ih =>
    cases ds with
    | nil => cases h
    | cons d ds =>
      rw [List.flatMap_cons, List.flatMap_cons]
      rcases List.cons_lt_cons_iff.1 h with hcd | ⟨rfl, hcs⟩
      · exact encode_append_lt hcd _ _
      · exact List.append_left_lt (ih hcs)

/-- **The order by code points is the order by bytes.** -/
theorem lt_iff_bytes_lt {s t : String} : s < t ↔ bytes s < bytes t := by
  have hlt : ∀ {s t : String}, s < t → bytes s < bytes t := by
    intro s t h
    rw [bytes_eq_flatMap, bytes_eq_flatMap]
    exact flatMap_encode_lt (String.lt_iff.1 h)
  refine ⟨hlt, fun h => ?_⟩
  -- of two texts that do not stand in this order the second is smaller or they are the same
  by_cases hts : t < s
  · exact absurd (hlt hts) (List.lt_asymm h)
  · by_cases hst : s < t
    · exact hst
    · have heq : s = t := String.le_antisymm (String.not_lt.1 hts) (String.not_lt.1 hst)
      subst heq
      exact absurd h (List.lt_irrefl _)

theorem le_iff_bytes_le {s t : String} : s ≤ t ↔ bytes s ≤ bytes t := by
  rw [← String.not_lt, lt_iff_bytes_lt, List.not_lt]

end AccessPolicy.Text
