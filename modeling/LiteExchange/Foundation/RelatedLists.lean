import LiteExchange.Foundation.PriorityList
import Mathlib.Data.List.Forall2

/-!
# Lists that are related entry by entry

Insertion, search, update and removal act alike on related lists, when what they look at
agrees on related entries.
-/

namespace Foundation.RelatedLists

open PriorityList

variable {α β : Type*} {R : α → β → Prop} {entries : List α} {others : List β}

theorem forall₂_orderedInsert {before : α → α → Prop} {beforeOther : β → β → Prop}
    [DecidableRel before] [DecidableRel beforeOther]
    (agree : ∀ a b, R a b → ∀ a' b', R a' b' → (before a a' ↔ beforeOther b b'))
    (related : List.Forall₂ R entries others) {a : α} {b : β} (h : R a b) :
    List.Forall₂ R (entries.orderedInsert before a) (others.orderedInsert beforeOther b) := by
  induction related with
  | nil => exact .cons h .nil
  | @cons a' b' entries others h' rest ih =>
    by_cases hbefore : before a a'
    · rw [List.orderedInsert_cons_of_le _ _ hbefore,
        List.orderedInsert_cons_of_le _ _ ((agree a b h a' b' h').mp hbefore)]
      exact .cons h (.cons h' rest)
    · have hother : ¬ beforeOther b b' := fun hb => hbefore ((agree a b h a' b' h').mpr hb)
      rw [List.orderedInsert_of_not_le _ _ hbefore, List.orderedInsert_of_not_le _ _ hother]
      exact .cons h' ih

section FirstMatch

variable {found : α → Bool} {foundOther : β → Bool}
  (agree : ∀ a b, R a b → found a = foundOther b)

include agree

theorem forall₂_find? (related : List.Forall₂ R entries others) :
    Option.Rel R (entries.find? found) (others.find? foundOther) := by
  induction related with
  | nil => exact .none
  | @cons a b entries others h rest ih =>
    rw [List.find?_cons, List.find?_cons, ← agree a b h]
    cases found a with
    | true => exact .some h
    | false => exact ih

theorem forall₂_eraseP (related : List.Forall₂ R entries others) :
    List.Forall₂ R (entries.eraseP found) (others.eraseP foundOther) := by
  induction related with
  | nil => exact .nil
  | @cons a b entries others h rest ih =>
    rw [List.eraseP_cons, List.eraseP_cons, ← agree a b h]
    cases found a with
    | true => exact rest
    | false => exact .cons h ih

theorem forall₂_modifyFirst {f : α → α} {g : β → β} (update : ∀ a b, R a b → R (f a) (g b))
    (related : List.Forall₂ R entries others) :
    List.Forall₂ R (modifyFirst found f entries) (modifyFirst foundOther g others) := by
  induction related with
  | nil => exact .nil
  | @cons a b entries others h rest ih =>
    rw [modifyFirst, modifyFirst, ← agree a b h]
    cases found a with
    | true => exact .cons (update a b h) rest
    | false => exact .cons h ih

end FirstMatch

end Foundation.RelatedLists
