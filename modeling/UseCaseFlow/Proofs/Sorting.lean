/-!
# Sorting by a comparison

The listed files and the rows of a report are sorted by a comparison, with elements that compare as
equal in the order of the input.
-/

namespace UseCaseFlow

variable {α : Type} {order : α → α → Ordering} [Std.TransCmp order]

theorem isLE_total (a b : α) : ((order a b).isLE || (order b a).isLE) = true := by
  have hswap : order a b = (order b a).swap := Std.OrientedCmp.eq_swap
  rw [hswap]
  cases order b a <;> rfl

theorem pairwise_mergeSort_isLE (items : List α) :
    (items.mergeSort fun a b => (order a b).isLE).Pairwise fun a b => (order a b).isLE = true :=
  List.pairwise_mergeSort (fun _ _ _ => Std.TransCmp.isLE_trans) isLE_total items

/-- Elements that differ in the order may be given in any order. -/
theorem mergeSort_isLE_eq_of_perm {items items' : List α} (h : items.Perm items')
    (hdistinct : ∀ a ∈ items, ∀ b ∈ items, order a b = .eq → a = b) :
    (items.mergeSort fun a b => (order a b).isLE) =
      items'.mergeSort fun a b => (order a b).isLE := by
  have hsorted (list : List α) : (list.mergeSort fun a b => (order a b).isLE).Perm list :=
    List.mergeSort_perm list _
  apply List.Perm.eq_of_pairwise _ (pairwise_mergeSort_isLE items) (pairwise_mergeSort_isLE items')
    ((hsorted items).trans (h.trans (hsorted items').symm))
  intro a b ha hb hab hba
  apply hdistinct a ((hsorted items).subset ha) b (h.symm.subset ((hsorted items').subset hb))
  exact Std.OrientedCmp.isLE_antisymm hab hba

end UseCaseFlow
