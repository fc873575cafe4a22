import Mathlib.Data.List.AList

/-!
# Tables with a primary key

A table is an association list without duplicate keys, so that two rows of one key
cannot be built. `AList.insert` is the statement that writes the row of one key,
`insertNew` the INSERT that does nothing when the key is taken.
-/
namespace DocPipeline.Lib

set_option autoImplicit false

universe u
variable {K V : Type u} [DecidableEq K]

/-- Rows of type `V` under primary key `K`. -/
abbrev Table (K V : Type u) := AList fun _ : K => V

namespace Table

/-- The rows, each with its key. -/
def rows (t : Table K V) : List (K × V) := t.entries.map fun e => (e.1, e.2)

/-- INSERT ... ON CONFLICT DO NOTHING. -/
def insertNew (t : Table K V) (k : K) (v : V) : Table K V :=
  match t.lookup k with
  | some _ => t
  | none => t.insert k v

theorem lookup_insert_ite (t : Table K V) (k k' : K) (v : V) :
    (t.insert k v).lookup k' = if k' = k then some v else t.lookup k' := by
  by_cases h : k' = k
  · rw [if_pos h, h, AList.lookup_insert]
  · rw [if_neg h, AList.lookup_insert_ne h]

theorem lookup_insertNew (t : Table K V) (k k' : K) (v : V) :
    (t.insertNew k v).lookup k' = if k' = k then some ((t.lookup k).getD v) else t.lookup k' := by
  unfold insertNew
  split
  · next w hw =>
    rw [hw, Option.getD_some]
    by_cases h : k' = k
    · rw [if_pos h, h, hw]
    · rw [if_neg h]
  · next hw => rw [lookup_insert_ite, hw, Option.getD_none]

theorem mem_rows {t : Table K V} {k : K} {v : V} : (k, v) ∈ t.rows ↔ t.lookup k = some v := by
  have h : t.lookup k = some v ↔ (⟨k, v⟩ : Sigma fun _ : K => V) ∈ t.entries := AList.mem_lookup_iff
  rw [h]
  simp only [rows, List.mem_map, Prod.mk.injEq]
  constructor
  · rintro ⟨⟨k', v'⟩, hm, rfl, rfl⟩
    exact hm
  · intro hm
    exact ⟨⟨k, v⟩, hm, rfl, rfl⟩

omit [DecidableEq K] in
theorem nodup_rows (t : Table K V) : (t.rows.map Prod.fst).Nodup := by
  have h : t.rows.map Prod.fst = t.keys := by
    rw [rows, List.map_map]
    rfl
  rw [h]
  exact t.keys_nodup

end Table
end DocPipeline.Lib
