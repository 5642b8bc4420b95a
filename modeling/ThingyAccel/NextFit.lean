import Mathlib.Algebra.BigOperators.Group.List.Basic
import Mathlib.Algebra.Ring.Nat
import Mathlib.Data.List.Basic

/-!
Next-fit packing in order of arrival. Every bin has a label with a tare weight
of its own: items go into the one open bin until the next item would pass the
limit, and that item opens a bin with the fresh label.
-/
namespace ThingyAccel.NextFit

structure Bin (Label Item : Type) where
  label : Label
  items : List Item
  deriving DecidableEq, Repr

section Packing

variable {Label Item : Type} (tare : Label → Nat) (cost : Item → Nat) (limit : Nat) (fresh : Label)

def load (items : List Item) : Nat := (items.map cost).sum

def Bin.weight (bin : Bin Label Item) : Nat := tare bin.label + load cost bin.items

/-- The bins that are closed on the way, and the bin that stays open. -/
def pack : Bin Label Item → List Item → List (Bin Label Item) × Bin Label Item
  | bin, [] => ([], bin)
  | bin, item :: rest =>
      if limit < bin.weight tare cost + cost item then
        let later := pack ⟨fresh, [item]⟩ rest
        (bin :: later.1, later.2)
      else pack ⟨bin.label, bin.items ++ [item]⟩ rest

@[simp] theorem load_nil : load cost [] = 0 := rfl

@[simp] theorem load_append (left right : List Item) :
    load cost (left ++ right) = load cost left + load cost right := by
  simp [load]

@[simp] theorem load_singleton (item : Item) : load cost [item] = cost item := by
  simp [load]

theorem load_lower {least : Nat} (items : List Item) (bounded : ∀ item ∈ items, least ≤ cost item) :
    least * items.length ≤ load cost items := by
  induction items with
  | nil => simp
  | cons item rest ih =>
      have head := bounded item List.mem_cons_self
      have tail := ih fun other member => bounded other (List.mem_cons_of_mem _ member)
      simp only [load, List.map_cons, List.sum_cons, List.length_cons, Nat.mul_succ] at tail ⊢
      omega

theorem load_upper {most : Nat} (items : List Item) (bounded : ∀ item ∈ items, cost item ≤ most) :
    load cost items ≤ most * items.length := by
  induction items with
  | nil => simp
  | cons item rest ih =>
      have head := bounded item List.mem_cons_self
      have tail := ih fun other member => bounded other (List.mem_cons_of_mem _ member)
      simp only [load, List.map_cons, List.sum_cons, List.length_cons, Nat.mul_succ] at tail ⊢
      omega

variable {tare cost limit fresh}

theorem pack_overflow {bin : Bin Label Item} {item : Item} {rest : List Item}
    (above : limit < bin.weight tare cost + cost item) :
    pack tare cost limit fresh bin (item :: rest) =
      (bin :: (pack tare cost limit fresh ⟨fresh, [item]⟩ rest).1,
        (pack tare cost limit fresh ⟨fresh, [item]⟩ rest).2) := by
  rw [pack, if_pos above]

theorem pack_room {bin : Bin Label Item} {item : Item} {rest : List Item}
    (room : ¬ limit < bin.weight tare cost + cost item) :
    pack tare cost limit fresh bin (item :: rest) =
      pack tare cost limit fresh ⟨bin.label, bin.items ++ [item]⟩ rest := by
  rw [pack, if_neg room]

theorem pack_all (bin : Bin Label Item) (items : List Item)
    (room : bin.weight tare cost + load cost items ≤ limit) :
    pack tare cost limit fresh bin items = ([], ⟨bin.label, bin.items ++ items⟩) := by
  induction items generalizing bin with
  | nil => rw [pack, List.append_nil]
  | cons item rest ih =>
      have total : load cost (item :: rest) = cost item + load cost rest := by simp [load]
      have fits : ¬ limit < bin.weight tare cost + cost item := by omega
      have grown : Bin.weight tare cost ⟨bin.label, bin.items ++ [item]⟩ =
          bin.weight tare cost + cost item := by
        simp [Bin.weight, Nat.add_assoc]
      rw [pack_room fits, ih _ (by omega), List.append_assoc]
      rfl

/-- A bin that is past the limit already is closed by the first item. -/
theorem pack_over {bin : Bin Label Item} {items : List Item}
    (above : limit < bin.weight tare cost) (present : items ≠ []) :
    bin ∈ (pack tare cost limit fresh bin items).1 := by
  cases items with
  | nil => exact absurd rfl present
  | cons item rest =>
      rw [pack_overflow (Nat.lt_of_lt_of_le above (Nat.le_add_right _ _))]
      exact List.mem_cons_self

theorem pack_items (bin : Bin Label Item) (items : List Item) :
    (pack tare cost limit fresh bin items).1.flatMap Bin.items ++
      (pack tare cost limit fresh bin items).2.items = bin.items ++ items := by
  induction items generalizing bin with
  | nil => simp [pack]
  | cons item rest ih =>
      by_cases above : limit < bin.weight tare cost + cost item
      · rw [pack_overflow above]
        simp only [List.flatMap_cons, List.append_assoc]
        rw [ih]
        rfl
      · rw [pack_room above, ih]
        simp

/-- All bins in order: the first is the one that was open at the start, with
what fitted into it, and every other was opened on the way and is not empty. -/
theorem pack_sequence (fits : ∀ item, tare fresh + cost item ≤ limit) (bin : Bin Label Item)
    (items : List Item) :
    ∃ first later,
      (pack tare cost limit fresh bin items).1 ++ [(pack tare cost limit fresh bin items).2] =
        first :: later ∧
      first.label = bin.label ∧ (∃ taken, first.items = bin.items ++ taken) ∧
      (first = bin ∨ first.weight tare cost ≤ limit) ∧
      ∀ other ∈ later, other.label = fresh ∧ other.items ≠ [] ∧
        other.weight tare cost ≤ limit := by
  induction items generalizing bin with
  | nil =>
      refine ⟨bin, [], rfl, rfl, ⟨[], (List.append_nil _).symm⟩, Or.inl rfl, ?_⟩
      intro other member
      exact absurd member List.not_mem_nil
  | cons item rest ih =>
      by_cases above : limit < bin.weight tare cost + cost item
      · obtain ⟨second, later, sequence, label, ⟨taken, grown⟩, light, others⟩ := ih ⟨fresh, [item]⟩
        rw [pack_overflow above]
        refine ⟨bin, second :: later, by rw [← sequence]; rfl, rfl, ⟨[], (List.append_nil _).symm⟩,
          Or.inl rfl, ?_⟩
        intro other member
        rcases List.mem_cons.mp member with rfl | member
        · have present : other.items ≠ [] := by
            rw [grown]
            exact List.cons_ne_nil _ _
          refine ⟨label, present, ?_⟩
          rcases light with rfl | light
          · simpa [Bin.weight] using fits item
          · exact light
        · exact others other member
      · obtain ⟨first, later, sequence, label, ⟨taken, grown⟩, light, others⟩ :=
          ih ⟨bin.label, bin.items ++ [item]⟩
        rw [pack_room above]
        refine ⟨first, later, sequence, label, ⟨item :: taken, by rw [grown]; simp⟩, ?_, others⟩
        rcases light with rfl | light
        · exact Or.inr (by simp only [Bin.weight, load_append, load_singleton] at above ⊢; omega)
        · exact Or.inr light

theorem pack_open (fits : ∀ item, tare fresh + cost item ≤ limit) (bin : Bin Label Item)
    {items : List Item} (present : items ≠ []) :
    (pack tare cost limit fresh bin items).2.items ≠ [] := by
  obtain ⟨first, later, sequence, -, -, -, others⟩ := pack_sequence fits bin items
  cases closed : (pack tare cost limit fresh bin items).1 with
  | nil =>
      have all := @pack_items _ _ tare cost limit fresh bin items
      rw [closed, List.flatMap_nil, List.nil_append] at all
      rw [all]
      exact List.append_ne_nil_of_right_ne_nil _ present
  | cons head rest =>
      rw [closed, List.cons_append] at sequence
      obtain ⟨-, rfl⟩ := List.cons.inj sequence
      exact (others _ (List.mem_append_right _ (List.mem_singleton.mpr rfl))).2.1

end Packing

end ThingyAccel.NextFit
