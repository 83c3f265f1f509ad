import Mathlib.Data.List.Nodup

/-! Base64: three bytes are four digits of six bits, and what is left at the end is filled up with `=`. -/

namespace Universa.Base64

/-- The digits in their order. -/
def digits : List Char := "ABCDEFGHIJKLMNOPQRSTUVWXYZabcdefghijklmnopqrstuvwxyz0123456789+/".toList

/-- A digit. -/
def digit (n : ℕ) : Char := digits.getD n '='

/-- The digits of bytes. -/
def encode : List UInt8 → List Char
  | a :: b :: c :: rest =>
      let n := a.toNat * 65536 + b.toNat * 256 + c.toNat
      digit (n / 262144) :: digit (n / 4096 % 64) :: digit (n / 64 % 64) :: digit (n % 64) :: encode rest
  | [a, b] =>
      let n := a.toNat * 1024 + b.toNat * 4
      [digit (n / 4096), digit (n / 64 % 64), digit (n % 64), '=']
  | [a] => [digit (a.toNat / 4), digit (a.toNat % 4 * 16), '=', '=']
  | [] => []

theorem digits_nodup : ('=' :: digits).Nodup := by decide +kernel

theorem digit_eq {n : ℕ} (h : n < digits.length) : digit n = digits[n] := by
  rw [digit, List.getD_eq_getElem?_getD, List.getElem?_eq_getElem h]
  rfl

/-- A digit tells its number. -/
theorem digit_inj (m : ℕ) (hm : m < 64) (n : ℕ) (hn : n < 64) (h : digit m = digit n) : m = n := by
  have hm' : m < digits.length := hm
  have hn' : n < digits.length := hn
  rw [digit_eq hm', digit_eq hn'] at h
  exact (List.nodup_cons.mp digits_nodup).2.getElem_inj_iff.mp h

/-- No digit is a filler. -/
theorem digit_ne_filler (n : ℕ) (hn : n < 64) : digit n ≠ '=' := by
  intro h
  have hn' : n < digits.length := hn
  exact (List.nodup_cons.mp digits_nodup).1 (h ▸ digit_eq hn' ▸ List.getElem_mem hn')

/-- Bytes can be told from their digits. -/
theorem encode_injective : ∀ {s t : List UInt8}, encode s = encode t → s = t
  | [], [], _ => rfl
  | [], [_], h => by simp [encode] at h
  | [], [_, _], h => by simp [encode] at h
  | [], _ :: _ :: _ :: _, h => by simp [encode] at h
  | [_], [], h => by simp [encode] at h
  | [a], [b], h => by
      have ha := a.toNat_lt
      have hb := b.toNat_lt
      simp only [encode, List.cons.injEq] at h
      have h1 := digit_inj _ (by omega) _ (by omega) h.1
      have h2 := digit_inj _ (by omega) _ (by omega) h.2.1
      rw [UInt8.toNat_inj.mp (show a.toNat = b.toNat by omega)]
  | [a], [b, c], h => by
      have hb := b.toNat_lt
      have hc := c.toNat_lt
      simp only [encode, List.cons.injEq] at h
      exact absurd h.2.2.1.symm (digit_ne_filler _ (by omega))
  | [a], b :: c :: d :: rest, h => by
      simp only [encode, List.cons.injEq] at h
      exact absurd h.2.2.1.symm (digit_ne_filler _ (by omega))
  | [_, _], [], h => by simp [encode] at h
  | [a, b], [c], h => by
      have ha := a.toNat_lt
      have hb := b.toNat_lt
      simp only [encode, List.cons.injEq] at h
      exact absurd h.2.2.1 (digit_ne_filler _ (by omega))
  | [a, b], [c, d], h => by
      have ha := a.toNat_lt
      have hb := b.toNat_lt
      have hc := c.toNat_lt
      have hd := d.toNat_lt
      simp only [encode, List.cons.injEq] at h
      have h1 := digit_inj _ (by omega) _ (by omega) h.1
      have h2 := digit_inj _ (by omega) _ (by omega) h.2.1
      have h3 := digit_inj _ (by omega) _ (by omega) h.2.2.1
      rw [UInt8.toNat_inj.mp (show a.toNat = c.toNat by omega),
        UInt8.toNat_inj.mp (show b.toNat = d.toNat by omega)]
  | [a, b], c :: d :: e :: rest, h => by
      simp only [encode, List.cons.injEq] at h
      exact absurd h.2.2.2.1.symm (digit_ne_filler _ (by omega))
  | _ :: _ :: _ :: _, [], h => by simp [encode] at h
  | a :: b :: c :: rest, [d], h => by
      simp only [encode, List.cons.injEq] at h
      exact absurd h.2.2.1 (digit_ne_filler _ (by omega))
  | a :: b :: c :: rest, [d, e], h => by
      simp only [encode, List.cons.injEq] at h
      exact absurd h.2.2.2.1 (digit_ne_filler _ (by omega))
  | a :: b :: c :: rest, d :: e :: f :: rest', h => by
      have ha := a.toNat_lt
      have hb := b.toNat_lt
      have hc := c.toNat_lt
      have hd := d.toNat_lt
      have he := e.toNat_lt
      have hf := f.toNat_lt
      simp only [encode, List.cons.injEq] at h
      have h1 := digit_inj _ (by omega) _ (by omega) h.1
      have h2 := digit_inj _ (by omega) _ (by omega) h.2.1
      have h3 := digit_inj _ (by omega) _ (by omega) h.2.2.1
      have h4 := digit_inj _ (by omega) _ (by omega) h.2.2.2.1
      rw [UInt8.toNat_inj.mp (show a.toNat = d.toNat by omega),
        UInt8.toNat_inj.mp (show b.toNat = e.toNat by omega),
        UInt8.toNat_inj.mp (show c.toNat = f.toNat by omega), encode_injective h.2.2.2.2]

end Universa.Base64
