import Orqara.Library.JsString

/-!
# The order of code units

Texts with the same code units are the same, so that the default order of `sort` is a linear one,
and sorting forgets the order in which texts came.
-/

namespace Orqara

/-- The first character can be read off. -/
theorem codeUnits_append_inj {c d : Char} {us vs : List ℕ} (h : codeUnits c ++ us = codeUnits d ++ vs) :
    c = d ∧ us = vs := by
  have hval (hnat : c.val.toNat = d.val.toNat) : c = d := Char.ext (UInt32.toNat_inj.mp hnat)
  have hc : c.val.toNat < 0xD800 ∨ 0xDFFF < c.val.toNat ∧ c.val.toNat < 0x110000 := c.valid
  have hd : d.val.toNat < 0xD800 ∨ 0xDFFF < d.val.toNat ∧ d.val.toNat < 0x110000 := d.valid
  unfold codeUnits at h
  split_ifs at h
  · simp only [List.singleton_append, List.cons.injEq] at h
    exact ⟨hval h.1, h.2⟩
  -- a surrogate is no character
  · simp only [List.cons_append, List.cons.injEq] at h
    omega
  · simp only [List.cons_append, List.cons.injEq] at h
    omega
  · simp only [List.cons_append, List.nil_append, List.cons.injEq] at h
    exact ⟨hval (by omega), h.2.2⟩

theorem codeUnits_ne_nil (c : Char) : codeUnits c ≠ [] := by
  unfold codeUnits
  split_ifs
  · exact List.cons_ne_nil _ _
  · exact List.cons_ne_nil _ _

theorem utf16_injective : Function.Injective utf16 := by
  have hlists (cs ds : List Char) (h : cs.flatMap codeUnits = ds.flatMap codeUnits) : cs = ds := by
    induction cs generalizing ds with
    | nil =>
      cases ds with
      | nil => rfl
      | cons d ds =>
        rw [List.flatMap_nil, List.flatMap_cons, eq_comm, List.append_eq_nil_iff] at h
        exact absurd h.1 (codeUnits_ne_nil d)
    | cons c cs ih =>
      cases ds with
      | nil =>
        rw [List.flatMap_nil, List.flatMap_cons, List.append_eq_nil_iff] at h
        exact absurd h.1 (codeUnits_ne_nil c)
      | cons d ds =>
        obtain ⟨hcd, hrest⟩ := codeUnits_append_inj h
        rw [hcd, ih ds hrest]
  intro s t h
  exact String.toList_inj.mp (hlists _ _ h)

/-- `sort` without a comparison. -/
def sortTexts (texts : List String) : List String := texts.insertionSort fun s t => codeUnitLE s t = true

instance : Std.Total fun s t : String => codeUnitLE s t = true where
  total s t := by
    simp only [codeUnitLE, decide_eq_true_eq]
    exact le_total _ _

instance : IsTrans String fun s t => codeUnitLE s t = true where
  trans s t u hst htu := by
    simp only [codeUnitLE, decide_eq_true_eq] at *
    exact hst.trans htu

instance : Std.Antisymm fun s t : String => codeUnitLE s t = true where
  antisymm s t hst hts := by
    simp only [codeUnitLE, decide_eq_true_eq] at *
    exact utf16_injective (le_antisymm hst hts)

/-- Sorting forgets the order. -/
theorem sortTexts_perm {texts texts' : List String} (h : texts.Perm texts') :
    sortTexts texts = sortTexts texts' := by
  have hperm : (sortTexts texts).Perm (sortTexts texts') :=
    ((List.perm_insertionSort _ texts).trans h).trans (List.perm_insertionSort _ texts').symm
  exact hperm.eq_of_pairwise' (List.pairwise_insertionSort _ _) (List.pairwise_insertionSort _ _)

end Orqara
