import Mathlib.Logic.Equiv.Basic
import AgenticFirewall.Lib.Text

/-!
# Digests as hex text

The hex text of a byte string, which determines it, and digest functions
that are injective and take chosen values: exchange some inputs with their
digests, then print.
-/

namespace Py

/-- Two hex digits a byte. -/
def hexText (bs : List UInt8) : Str :=
  bs.flatMap fun b => [hexDigit (b.toNat / 16), hexDigit (b.toNat % 16)]

theorem hexText_all (bs : List UInt8) : (hexText bs).all isHexDigit = true := by
  simp only [List.all_eq_true, hexText, List.mem_flatMap]
  rintro c ⟨b, -, hc⟩
  have hb := b.toNat_lt
  rcases List.mem_pair.mp hc with rfl | rfl
  · exact isHexDigit_hexDigit (by omega)
  · exact isHexDigit_hexDigit (by omega)

theorem hexText_injective : Function.Injective hexText := by
  intro as bs h
  induction as generalizing bs with
  | nil =>
      cases bs with
      | nil => rfl
      | cons b bs => simp [hexText] at h
  | cons a as ih =>
      cases bs with
      | nil => simp [hexText] at h
      | cons b bs =>
          simp only [hexText, List.flatMap_cons, List.cons_append, List.nil_append,
            List.cons.injEq] at h
          have ha := a.toNat_lt
          have hb := b.toNat_lt
          have hhi := congrArg hexVal h.1
          have hlo := congrArg hexVal h.2.1
          rw [hexVal_hexDigit (by omega), hexVal_hexDigit (by omega)] at hhi hlo
          have hab : a = b := UInt8.toNat_inj.mp (by omega)
          rw [hab, ih h.2.2]

/-- Exchange the members of each pair in turn. -/
def exchange : List (List UInt8 × List UInt8) → List UInt8 → List UInt8
  | [], bs => bs
  | p :: pairs, bs => exchange pairs (Equiv.swap p.1 p.2 bs)

theorem exchange_injective (pairs : List (List UInt8 × List UInt8)) :
    Function.Injective (exchange pairs) := by
  induction pairs with
  | nil => exact fun _ _ h => h
  | cons p pairs ih => exact ih.comp (Equiv.swap p.1 p.2).injective

end Py
