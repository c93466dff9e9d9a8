import ConstFun.Table
import Mathlib.Data.List.Nodup

namespace ConstFun

namespace Table

variable {κ β : Type} [DecidableEq κ]

def Distinct (t : Table κ β) : Prop := (t.entries.map Prod.fst).Nodup

theorem find?_insertEntry (key x : κ) (value : β) (l : List (κ × β)) :
    ((insertEntry key value l).find? fun e => e.1 = x).map Prod.snd =
      if x = key then some value else (l.find? fun e => e.1 = x).map Prod.snd := by
  induction l with
  | nil =>
    by_cases hx : x = key
    · simp [insertEntry, hx]
    · simp [insertEntry, hx, Ne.symm hx]
  | cons e l ih =>
    obtain ⟨k, v⟩ := e
    unfold insertEntry
    split
    next same =>
      subst k
      by_cases hx : x = key
      · simp [hx]
      · simp [hx, Ne.symm hx]
    next ne =>
      by_cases hk : k = x
      · have apart : x ≠ key := fun eq => ne (hk.trans eq)
        simp [hk, apart]
      · simpa [hk] using ih

theorem get?_insert (t : Table κ β) (key x : κ) (value : β) :
    (t.insert key value).get? x = if x = key then some value else t.get? x :=
  find?_insertEntry key x value t.entries

theorem get?_erase (t : Table κ β) (key x : κ) :
    (t.erase key).get? x = if x = key then none else t.get? x := by
  unfold get? erase
  rw [List.find?_filter]
  by_cases hx : x = key
  · simp [hx]
  · have same : (fun e : κ × β => decide (decide (e.1 ≠ key) = true ∧ decide (e.1 = x) = true)) =
        fun e => decide (e.1 = x) := by
      funext e
      by_cases he : e.1 = x <;> simp [he, hx]
    rw [same, if_neg hx]

theorem get?_addAll (t : Table κ (List β)) (key x : κ) (values : List β) :
    (t.addAll key values).get? x =
      if x = key then some ((t.get? key).getD [] ++ values) else t.get? x :=
  get?_insert t key x _

theorem mem_keys_insertEntry (key : κ) (value : β) (l : List (κ × β)) (x : κ) :
    x ∈ (insertEntry key value l).map Prod.fst ↔ x = key ∨ x ∈ l.map Prod.fst := by
  induction l with
  | nil => simp [insertEntry]
  | cons e l ih =>
    unfold insertEntry
    split
    next same => simp [← same]
    next =>
      simp only [List.map_cons, List.mem_cons, ih]
      tauto

theorem insertEntry_of_fresh {key : κ} {l : List (κ × β)} (fresh : key ∉ l.map Prod.fst)
    (value : β) : insertEntry key value l = l ++ [(key, value)] := by
  induction l with
  | nil => rfl
  | cons e l ih =>
    rw [List.map_cons, List.mem_cons, not_or] at fresh
    simp [insertEntry, Ne.symm fresh.1, ih fresh.2]

theorem Distinct.insert {t : Table κ β} (distinct : t.Distinct) (key : κ) (value : β) :
    (t.insert key value).Distinct := by
  obtain ⟨l⟩ := t
  unfold Distinct Table.insert at *
  simp only at distinct ⊢
  induction l with
  | nil => simp [insertEntry]
  | cons e l ih =>
    obtain ⟨fresh, rest⟩ := List.nodup_cons.mp distinct
    unfold insertEntry
    split
    next same =>
      rw [same] at fresh
      exact List.nodup_cons.mpr ⟨fresh, rest⟩
    next ne =>
      refine List.nodup_cons.mpr ⟨fun mem => ?_, ih rest⟩
      rcases (mem_keys_insertEntry key value l e.1).mp mem with eq | mem
      · exact ne eq
      · exact fresh mem

theorem Distinct.push {t : Table κ β} (distinct : t.Distinct) {key : κ}
    (fresh : key ∉ t.entries.map Prod.fst) (value : β) :
    Distinct ⟨t.entries ++ [(key, value)]⟩ := by
  have inserted := distinct.insert key value
  rwa [Table.insert, insertEntry_of_fresh fresh] at inserted

theorem Distinct.addAll {t : Table κ (List β)} (distinct : t.Distinct) (key : κ)
    (values : List β) : (t.addAll key values).Distinct :=
  distinct.insert key _

theorem Distinct.erase {t : Table κ β} (distinct : t.Distinct) (key : κ) :
    (t.erase key).Distinct :=
  distinct.sublist (List.filter_sublist.map _)

/-- In a table without repeated keys the entries are what its keys lead to. -/
theorem Distinct.mem_entries {t : Table κ β} (distinct : t.Distinct) {key : κ} {value : β} :
    (key, value) ∈ t.entries ↔ t.get? key = some value := by
  obtain ⟨l⟩ := t
  unfold Distinct get? at *
  simp only at distinct ⊢
  induction l with
  | nil => simp
  | cons e l ih =>
    obtain ⟨k, v⟩ := e
    obtain ⟨fresh, rest⟩ := List.nodup_cons.mp distinct
    by_cases same : k = key
    · subst k
      have absent : (key, value) ∉ l := fun mem => fresh (List.mem_map.mpr ⟨_, mem, rfl⟩)
      simp [absent, eq_comm]
    · simp [same, Ne.symm same, ih rest]

theorem contains_iff {t : Table κ β} {key : κ} :
    t.contains key = true ↔ key ∈ t.entries.map Prod.fst := by
  simp [contains, get?]

/-- The table with its values changed. -/
def mapValues {γ : Type} (g : β → γ) (t : Table κ β) : Table κ γ :=
  ⟨t.entries.map fun e => (e.1, g e.2)⟩

theorem get?_mapValues {γ : Type} (g : β → γ) (t : Table κ β) (key : κ) :
    (t.mapValues g).get? key = (t.get? key).map g := by
  simp [get?, mapValues, List.find?_map, Function.comp_def]

theorem insert_mapValues {γ : Type} (g : β → γ) (t : Table κ β) (key : κ) (value : β) :
    (t.mapValues g).insert key (g value) = (t.insert key value).mapValues g := by
  obtain ⟨l⟩ := t
  unfold Table.insert mapValues
  simp only [Table.mk.injEq]
  induction l with
  | nil => rfl
  | cons e l ih =>
    simp only [List.map_cons, insertEntry]
    split
    next => rfl
    next => rw [ih, List.map_cons]

end Table

theorem Table.distinct_empty {κ β : Type} : ({} : Table κ β).Distinct := List.nodup_nil

end ConstFun
