import Mathlib.Data.Nat.Digits.Defs
import VhdlLowering.Json.Written

/-!
# Reading numerals

A numeral is scanned to its end, if what follows does not carry it on, and a natural number comes back
with its value.
-/

namespace VhdlLowering
namespace Json

/-- What follows a numeral must not carry it on. -/
def EndsNumeral (rest : List Char) : Prop :=
  ∀ c ∈ rest.head?, c.isDigit = false ∧ c ≠ '.' ∧ c ≠ 'e' ∧ c ≠ 'E'

/-- The values of the digits of a number, in decimal notation. -/
def decimalDigits (n : Nat) : List Nat := (Nat.toDigits 10 n).map fun c => c.toNat - '0'.toNat

theorem decimalDigits_of_lt {n : Nat} (h : n < 10) : decimalDigits n = [n] := by
  rw [decimalDigits, Nat.toDigits_of_lt_base h]
  revert n
  decide

theorem decimalDigits_of_le {n : Nat} (h : 10 ≤ n) :
    decimalDigits n = decimalDigits (n / 10) ++ [n % 10] := by
  have hlast := decimalDigits_of_lt (show n % 10 < 10 by omega)
  rw [decimalDigits, Nat.toDigits_of_lt_base (by omega)] at hlast
  rw [decimalDigits, Nat.toDigits_of_base_le (by decide) h, List.map_append, hlast, decimalDigits]

theorem absorb_append {bound m k : Nat} {xs : List Nat} (h : absorb bound m xs = (k, []))
    (ys : List Nat) : absorb bound m (xs ++ ys) = absorb bound k ys := by
  induction xs generalizing m with
  | nil =>
    cases h
    rfl
  | cons x xs ih =>
    rw [absorb] at h
    rw [List.cons_append, absorb]
    split at h
    · rename_i hx
      rw [if_pos hx, ih h]
    · cases h

/-- A number in bounds is read whole. -/
theorem absorb_decimalDigits {bound n : Nat} (h : n ≤ bound) :
    absorb bound 0 (decimalDigits n) = (n, []) := by
  induction n using Nat.strongRecOn with
  | ind n ih =>
    by_cases hn : n < 10
    · rw [decimalDigits_of_lt hn, absorb, if_pos (by omega), absorb, Nat.mul_zero, Nat.zero_add]
    · have hhead := ih (n / 10) (by omega) (by omega)
      rw [decimalDigits_of_le (by omega), absorb_append hhead, absorb, if_pos (by omega), absorb]
      congr 1
      omega

theorem head_toDigits_ne {n : Nat} (h : n ≠ 0) : ∀ c ∈ (Nat.toDigits 10 n).head?, c ≠ '0' := by
  induction n using Nat.strongRecOn with
  | ind n ih =>
    by_cases hn : n < 10
    · have hdigit : ∀ d < 10, d ≠ 0 → Nat.digitChar d ≠ '0' := by decide
      rw [Nat.toDigits_of_lt_base hn]
      intro c hc
      cases hc
      exact hdigit n hn h
    · have hhead := ih (n / 10) (by omega) (by omega)
      rw [Nat.toDigits_of_base_le (by decide) (by omega)]
      revert hhead
      cases hdigits : Nat.toDigits 10 (n / 10) with
      | nil => exact absurd hdigits Nat.toDigits_ne_nil
      | cons c cs => exact id

theorem isDigit_of_mem_toDigits {n : Nat} : ∀ c ∈ Nat.toDigits 10 n, c.isDigit = true :=
  fun _ hc => Nat.isDigit_of_mem_toDigits (by decide) (by decide) hc

theorem exists_toDigits_eq_cons (n : Nat) :
    ∃ d ds, Nat.toDigits 10 n = d :: ds ∧ d.isDigit = true := by
  obtain ⟨d, ds, hdigits⟩ := List.exists_cons_of_ne_nil (Nat.toDigits_ne_nil (n := n) (b := 10))
  exact ⟨d, ds, hdigits, isDigit_of_mem_toDigits d (hdigits ▸ List.mem_cons_self)⟩

/-- What follows digits must not carry them on. -/
def EndsDigits (rest : List Char) : Prop := ∀ c ∈ rest.head?, c.isDigit = false

theorem EndsNumeral.endsDigits {rest : List Char} (h : EndsNumeral rest) : EndsDigits rest :=
  fun c hc => (h c hc).1

section Following

variable {rest : List Char} (pos : Nat)

theorem scanDigits_append {ds : List Char} (hds : ∀ c ∈ ds, c.isDigit = true) (hne : ds ≠ [])
    (hrest : EndsDigits rest) :
    scanDigits pos (ds ++ rest) =
      .ok ⟨ds.map fun c => c.toNat - '0'.toNat, pos + ds.length, rest⟩ := by
  have hstop : rest.takeWhile Char.isDigit = [] ∧ rest.dropWhile Char.isDigit = rest := by
    cases rest with
    | nil => exact ⟨rfl, rfl⟩
    | cons c cs => simp [hrest c rfl]
  have hvalues : digitsOf (ds ++ rest) = ds.map fun c => c.toNat - '0'.toNat := by
    rw [digitsOf, List.takeWhile_append_of_pos hds, hstop.1, List.append_nil]
  have hafter : afterDigits (ds ++ rest) = rest := by
    rw [afterDigits, List.dropWhile_append_of_pos hds, hstop.2]
  obtain ⟨d, ds, rfl⟩ := List.exists_cons_of_ne_nil hne
  rw [scanDigits, hvalues, hafter, List.map_cons]
  simp

theorem scanWhole_toDigits (n : Nat) (hrest : EndsDigits rest) :
    scanWhole pos (Nat.toDigits 10 n ++ rest) =
      .ok ⟨decimalDigits n, pos + (Nat.toDigits 10 n).length, rest⟩ := by
  rw [scanWhole.eq_def]
  split
  · rename_i c cs hcs
    by_cases hn : n = 0
    · subst hn
      cases hcs
      rw [if_neg (by simp [hrest c rfl])]
      rfl
    · have hhead := head_toDigits_ne hn
      obtain ⟨d, ds, hdigits, -⟩ := exists_toDigits_eq_cons n
      rw [hdigits, List.cons_append] at hcs
      rw [hdigits] at hhead
      exact absurd (List.cons.inj hcs).1 (hhead d rfl)
  · exact scanDigits_append pos isDigit_of_mem_toDigits Nat.toDigits_ne_nil hrest

theorem isDigit_digitChar (d : Fin 10) : (Nat.digitChar d.val).isDigit = true := by
  revert d
  decide

theorem toNat_digitChar (d : Fin 10) : (Nat.digitChar d.val).toNat - '0'.toNat = d.val := by
  revert d
  decide

theorem scanDigits_digitText (d : Fin 10) (ds : List (Fin 10)) (hrest : EndsDigits rest) :
    scanDigits pos (digitText (d :: ds) ++ rest) =
      .ok ⟨(d :: ds).map Fin.val, pos + (digitText (d :: ds)).length, rest⟩ := by
  have hdigits : ∀ c ∈ digitText (d :: ds), c.isDigit = true := by
    intro c hc
    obtain ⟨e, -, rfl⟩ := List.mem_map.mp hc
    exact isDigit_digitChar e
  rw [scanDigits_append pos hdigits nofun hrest, digitText, List.map_map]
  simp only [Function.comp_def, toNat_digitChar, List.length_map]

open WrittenNumeral (signText fractionText exponentText)

theorem scanFraction_fractionText (ds : List (Fin 10)) (hrest : EndsDigits rest)
    (hpoint : ∀ c ∈ rest.head?, c ≠ '.') :
    ∃ stop, scanFraction pos (fractionText ds ++ rest) = .ok ⟨ds.map Fin.val, stop, rest⟩ := by
  cases ds with
  | nil =>
    refine ⟨pos, ?_⟩
    rw [fractionText, List.nil_append, scanFraction.eq_def]
    split
    · exact absurd rfl (hpoint '.' rfl)
    · rfl
  | cons d ds => exact ⟨_, scanDigits_digitText (pos + 1) d ds hrest⟩

/-- The exponent as it is scanned: whether it is negative, and its digits. -/
def Exponent.scanned (e : Exponent) : Bool × List Nat :=
  (e.sign == some true, (e.first :: e.more).map Fin.val)

theorem scanExponent_text (e : Exponent) (hrest : EndsDigits rest) :
    ∃ stop, scanExponent pos (e.text ++ rest) = .ok ⟨some e.scanned, stop, rest⟩ := by
  obtain ⟨capital, sign, d, ds⟩ := e
  have hletter (cs : List Char) :
      scanExponent pos ((if capital then 'E' else 'e') :: cs) = scanExponent pos ('e' :: cs) := by
    cases capital <;> rfl
  rw [Exponent.text, List.cons_append, hletter, List.append_assoc]
  have hpower (negative : Bool) (pos : Nat) :
      ∃ stop, scanPower negative pos (digitText (d :: ds) ++ rest) =
        .ok ⟨some (negative, (d :: ds).map Fin.val), stop, rest⟩ := by
    rw [scanPower, scanDigits_digitText pos d ds hrest]
    exact ⟨_, rfl⟩
  match sign with
  | some true => exact hpower true (pos + 2)
  | some false => exact hpower false (pos + 2)
  | none =>
    -- A digit is neither of the signs.
    have hsign : ∀ d : Fin 10, Nat.digitChar d.val ≠ '-' ∧ Nat.digitChar d.val ≠ '+' := by decide
    obtain ⟨stop, hstop⟩ := hpower false (pos + 1)
    refine ⟨stop, hstop ▸ ?_⟩
    rw [Exponent.signText, List.nil_append, scanExponent.eq_def]
    simp only [digitText, List.map_cons, List.cons_append, true_or, if_true]
    split
    · rename_i heq
      exact absurd (List.cons.inj heq).1 (hsign d).1
    · rename_i heq
      exact absurd (List.cons.inj heq).1 (hsign d).2
    · rfl

theorem scanExponent_exponentText (e : Option Exponent) (hrest : EndsNumeral rest) :
    ∃ stop, scanExponent pos (exponentText e ++ rest) =
      .ok ⟨e.map Exponent.scanned, stop, rest⟩ := by
  cases e with
  | some e => exact scanExponent_text pos e hrest.endsDigits
  | none =>
    refine ⟨pos, ?_⟩
    rw [exponentText, List.nil_append]
    cases rest with
    | nil => rfl
    | cons c cs =>
      obtain ⟨-, -, he, hE⟩ := hrest c rfl
      rw [scanExponent.eq_def]
      exact if_neg (not_or.mpr ⟨he, hE⟩)

theorem endsDigits_exponentText (e : Option Exponent) (hrest : EndsNumeral rest) :
    ∀ c ∈ (exponentText e ++ rest).head?, c.isDigit = false ∧ c ≠ '.' := by
  cases e with
  | none => exact fun c hc => ⟨(hrest c hc).1, (hrest c hc).2.1⟩
  | some e =>
    obtain ⟨capital, sign, d, ds⟩ := e
    intro c hc
    have hletter : ∀ capital : Bool, (if capital then 'E' else 'e').isDigit = false ∧
        (if capital then 'E' else 'e') ≠ '.' := by decide
    cases hc
    exact hletter capital

theorem endsDigits_fractionText (ds : List (Fin 10)) (hrest : EndsDigits rest) :
    EndsDigits (fractionText ds ++ rest) := by
  cases ds with
  | nil => exact hrest
  | cons d ds =>
    intro c hc
    cases hc
    decide

theorem head_signText (negative : Bool) (n : Nat) (tail : List Char) :
    ((signText negative ++ (Nat.toDigits 10 n ++ tail)).head? == some '-') = negative := by
  cases negative with
  | true => rfl
  | false =>
    obtain ⟨d, ds, hdigits, hd⟩ := exists_toDigits_eq_cons n
    refine beq_false_of_ne fun h => ?_
    rw [hdigits] at h
    cases h
    cases hd

/-- The whole part behind its sign. -/
theorem scanWhole_signText (negative : Bool) (n : Nat) (hrest : EndsDigits rest) :
    ∃ stop, (if negative then
        scanWhole (pos + 1) ((signText negative ++ (Nat.toDigits 10 n ++ rest)).drop 1)
      else scanWhole pos (signText negative ++ (Nat.toDigits 10 n ++ rest))) =
      .ok ⟨decimalDigits n, stop, rest⟩ := by
  cases negative with
  | true => exact ⟨_, scanWhole_toDigits (pos + 1) n hrest⟩
  | false => exact ⟨_, scanWhole_toDigits pos n hrest⟩

/-- The numeral as it is scanned. -/
def WrittenNumeral.scanned (x : WrittenNumeral) : Numeral :=
  ⟨x.negative, decimalDigits x.whole, x.fraction.map Fin.val, x.exponent.map Exponent.scanned⟩

theorem scanNumeral_eq_ok {cs : List Char} {w f : Scanned (List Nat)}
    {e : Scanned (Option (Bool × List Nat))} {negative : Bool}
    (hnegative : (cs.head? == some '-') = negative)
    (hw : (if negative then scanWhole (pos + 1) (cs.drop 1) else scanWhole pos cs) = .ok w)
    (hf : scanFraction w.stop w.rest = .ok f) (he : scanExponent f.stop f.rest = .ok e) :
    scanNumeral pos cs = .ok ⟨⟨negative, w.value, f.value, e.value⟩, e.stop, e.rest⟩ := by
  rw [scanNumeral, hnegative]
  cases negative <;> simp only [if_true, Bool.false_eq_true, if_false] at hw ⊢ <;>
    simp only [hw, hf, he, bind, Except.bind] <;> rfl

/-- A numeral is scanned to its end. -/
theorem scanNumeral_text (x : WrittenNumeral) (hrest : EndsNumeral rest) :
    ∃ stop, scanNumeral pos (x.text ++ rest) = .ok ⟨x.scanned, stop, rest⟩ := by
  obtain ⟨negative, n, fraction, exponent⟩ := x
  rw [WrittenNumeral.text, List.append_assoc, List.append_assoc, List.append_assoc]
  have hexponent := endsDigits_exponentText exponent hrest
  have hdigits : EndsDigits (exponentText exponent ++ rest) := fun c hc => (hexponent c hc).1
  obtain ⟨stop, hw⟩ := scanWhole_signText pos negative n (endsDigits_fractionText fraction hdigits)
  obtain ⟨stop', hf⟩ := scanFraction_fractionText stop fraction hdigits fun c hc =>
    (hexponent c hc).2
  obtain ⟨stop'', he⟩ := scanExponent_exponentText stop' exponent hrest
  exact ⟨stop'', scanNumeral_eq_ok pos (head_signText negative n _) hw hf he⟩

end Following

theorem value_decimalDigits {n : Nat} (h : n < UInt64.size) (stop : Nat) :
    Numeral.value stop ⟨false, decimalDigits n, [], none⟩ = .ok (.natural n) := by
  have hread : absorb (UInt64.size - 1) 0 (decimalDigits n) = (n, []) :=
    absorb_decimalDigits (by omega)
  rw [Numeral.value, hread]
  exact if_pos ⟨rfl, rfl, rfl, .inl rfl⟩

theorem WrittenNumeral.exists_text_eq_cons (x : WrittenNumeral) :
    ∃ c cs, x.text = c :: cs ∧ (c = '-' ∨ c.isDigit = true) := by
  obtain ⟨negative, n, fraction, exponent⟩ := x
  cases negative with
  | true => exact ⟨'-', _, rfl, .inl rfl⟩
  | false =>
    obtain ⟨d, ds, hdigits, hd⟩ := exists_toDigits_eq_cons n
    refine ⟨d, ds ++ (fractionText fraction ++ exponentText exponent), ?_, .inr hd⟩
    rw [text, hdigits]
    rfl

end Json
end VhdlLowering
