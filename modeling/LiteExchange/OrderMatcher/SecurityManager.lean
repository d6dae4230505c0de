import Mathlib.Logic.Function.Basic
import LiteExchange.Foundation.Ascii

/-!
# Symbols and security ids

Source: security_manager.h, security_manager.cpp. `m_securitiesById` gets its
size as the next key, so its keys are always `0 .. size-1` and it is a list of
symbols. `unordered_map::insert` leaves an existing key alone; `at` throws on a
missing one, modelled by `none`.
-/

namespace LiteExchange.OrderMatcher

open Foundation.Ascii

/-- `unordered_map::insert`. -/
def insertNew {κ α : Type*} [DecidableEq κ] (dictionary : κ → Option α) (key : κ) (value : α) :
    κ → Option α :=
  if (dictionary key).isSome then dictionary else Function.update dictionary key (some value)

theorem insertNew_apply {κ α : Type*} [DecidableEq κ] (dictionary : κ → Option α) (key other : κ)
    (value : α) : insertNew dictionary key value other =
      if other = key then some ((dictionary key).getD value) else dictionary other := by
  unfold insertNew
  by_cases hother : other = key
  · subst hother
    rw [if_pos rfl]
    cases hkey : dictionary other with
    | none => simp
    | some present => simp [hkey]
  · rw [if_neg hother]
    split
    · rfl
    · exact Function.update_of_ne hother _ _

/-- Inserting the default is not observed by a read that defaults to it. -/
theorem insertNew_getD {κ α : Type*} [DecidableEq κ] (dictionary : κ → Option α) (key other : κ)
    (value : α) :
    ((insertNew dictionary key value) other).getD value = (dictionary other).getD value := by
  rw [insertNew_apply]
  split
  · rename_i hother
    rw [hother, Option.getD_some]
  · rfl

structure SecurityManager where
  securitiesById : List Bytes := []
  securitiesBySymbol : Bytes → Option Nat := fun _ => none

namespace SecurityManager

/-- The manager with the symbol added, and the id it returns. -/
def addSecurity (manager : SecurityManager) (symbol : Bytes) : SecurityManager × Nat :=
  let keyCount := manager.securitiesById.length
  ({ securitiesById := manager.securitiesById ++ [symbol]
     securitiesBySymbol := insertNew manager.securitiesBySymbol symbol keyCount }, keyCount)

def getSecurityId (manager : SecurityManager) (symbol : Bytes) : Option Nat :=
  manager.securitiesBySymbol symbol

def getSecurityName (manager : SecurityManager) (securityId : Nat) : Option Bytes :=
  manager.securitiesById[securityId]?

def isSecuritySupported (manager : SecurityManager) (securityId : Nat) : Bool :=
  decide (securityId < manager.securitiesById.length)

end SecurityManager

end LiteExchange.OrderMatcher
