import Mathlib.Data.List.Induction

/-!
# Records one behind the other

A region of cells to which records are written, each at the cell behind the last one of the record
before. While there is room, no record overwrites another, and each can be read back.
-/

namespace Foundation.AppendLog

variable {β : Type*}

/-- A copy to the cells from an offset on. -/
def store (region : Nat → β) (offset : Nat) (written : List β) : Nat → β := fun i =>
  if offset ≤ i then (written[i - offset]?).getD (region i) else region i

theorem store_inside {region : Nat → β} {offset i : Nat} {written : List β}
    (h : i < written.length) : store region offset written (offset + i) = written[i] := by
  rw [store, if_pos (Nat.le_add_right offset i), Nat.add_sub_cancel_left,
    List.getElem?_eq_getElem h]
  rfl

theorem store_before {region : Nat → β} {offset i : Nat} (written : List β) (h : i < offset) :
    store region offset written i = region i := if_neg (Nat.not_le.mpr h)

structure Record (β : Type*) where
  offset : Nat
  bytes : List β

/-- The first cell behind the record. -/
def Record.behind (record : Record β) : Nat := record.offset + record.bytes.length

/-- The records stand one behind the other, from cell 0 up to the given one. -/
inductive Packed : List (Record β) → Nat → Prop
  | nil : Packed [] 0
  | snoc {records : List (Record β)} {offset : Nat} (h : Packed records offset) (bytes : List β) :
      Packed (records ++ [⟨offset, bytes⟩]) (offset + bytes.length)

theorem Packed.behind_le {records : List (Record β)} {offset : Nat} (h : Packed records offset) :
    ∀ record ∈ records, record.behind ≤ offset := by
  induction h with
  | nil =>
    intro record hrecord
    cases hrecord
  | snoc h bytes ih =>
    intro record hrecord
    rcases List.mem_append.mp hrecord with hbefore | hlast
    · exact Nat.le_add_right_of_le (ih record hbefore)
    · obtain rfl := List.mem_singleton.mp hlast
      exact Nat.le_refl _

/-- The records fill a region of the given size up to `offset`, and can be read back. -/
structure Holds (size : Nat) (region : Nat → β) (records : List (Record β)) (offset : Nat) :
    Prop where
  packed : Packed records offset
  inside : offset ≤ size
  stored : ∀ record ∈ records, ∀ i, (h : i < record.bytes.length) →
    region (record.offset + i) = record.bytes[i]

theorem holds_nil (size : Nat) (region : Nat → β) : Holds size region [] 0 :=
  ⟨.nil, Nat.zero_le size, fun _ h => by cases h⟩

/-- A record behind the others, where there is room for it. -/
theorem Holds.snoc {size offset : Nat} {region : Nat → β} {records : List (Record β)}
    (h : Holds size region records offset) {bytes : List β} (room : offset + bytes.length ≤ size) :
    Holds size (store region offset bytes) (records ++ [⟨offset, bytes⟩])
      (offset + bytes.length) where
  packed := h.packed.snoc bytes
  inside := room
  stored := by
    intro record hrecord i hi
    rcases List.mem_append.mp hrecord with hbefore | hlast
    · have hbehind := h.packed.behind_le record hbefore
      unfold Record.behind at hbehind
      rw [store_before _ (by omega)]
      exact h.stored record hbefore i hi
    · obtain rfl := List.mem_singleton.mp hlast
      exact store_inside hi

/-- Each record lies inside the region. -/
theorem Holds.behind_le {size offset : Nat} {region : Nat → β} {records : List (Record β)}
    (h : Holds size region records offset) : ∀ record ∈ records, record.behind ≤ size :=
  fun record hrecord => Nat.le_trans (h.packed.behind_le record hrecord) h.inside

end Foundation.AppendLog
