/-
Numbers in decimal digits, and runs of characters.

A number is written without a needless zero in front (`repr_cases`), and its digits have
its value (`digitsValue_repr`). Whoever reads it finds the end of its digits where what
follows is no digit (`span_append`). JSON and TOML are both read in this way.
-/
import CommandCompletion.Text.Decimal

set_option autoImplicit false

namespace CommandCompletion.Text

/-! ## Runs -/

/-- A run of characters of a class ends where what follows is not of the class, so taking characters
of the class gives the run and leaves what follows. -/
theorem span_append {p : Char → Bool} {cs rest : List Char} (hcs : ∀ c ∈ cs, p c = true)
    (hrest : ∀ c ∈ rest.head?, p c = false) :
    (cs ++ rest).takeWhile p = cs ∧ (cs ++ rest).dropWhile p = rest := by
  rw [List.takeWhile_append_of_pos hcs, List.dropWhile_append_of_pos hcs]
  cases rest with
  | nil => exact ⟨List.append_nil cs, rfl⟩
  | cons c rest =>
    have hc : ¬ p c = true := by
      rw [hrest c rfl]
      exact Bool.false_ne_true
    rw [List.takeWhile_cons_of_neg hc, List.dropWhile_cons_of_neg hc, List.append_nil]
    exact ⟨rfl, rfl⟩

/-! ## Digits -/

/-- There are ten digits, so what is true of each of them can be decided. -/
theorem exists_of_isDigit {c : Char} (h : c.isDigit = true) :
    ∃ n : Fin 10, c = Char.ofNat (n + 48) := by
  obtain ⟨hlow, hhigh⟩ := Char.isDigit_iff_toNat.mp h
  have hzero : '0'.toNat = 48 := rfl
  have hnine : '9'.toNat = 57 := rfl
  -- A digit stands as far behind zero as its value says.
  refine ⟨⟨c.toNat - 48, by omega⟩, ?_⟩
  show c = Char.ofNat (c.toNat - 48 + 48)
  rw [Nat.sub_add_cancel (hzero ▸ hlow), Char.ofNat_toNat]

/-- A number is written in digits and nothing else. -/
theorem isDigit_of_mem_repr {n : Nat} : ∀ c ∈ (toString n).toList, c.isDigit = true := by
  rw [Nat.toString_eq_repr, Nat.toList_repr]
  exact fun c hc => Nat.isDigit_of_mem_toDigits (by decide) (by decide) hc

/-- Only zero itself begins with a zero. By induction on the number: its last digit is put behind
those of a tenth of it, which begin the same way. -/
theorem repr_cases (n : Nat) : (toString n).toList = ['0'] ∨
    ∃ c tail, (toString n).toList = c :: tail ∧ c ≠ '0' := by
  rw [Nat.toString_eq_repr, Nat.toList_repr]
  induction n using Nat.strongRecOn with
  | ind n ih =>
    by_cases hn : n < 10
    · rw [Nat.toDigits_of_lt_base hn]
      by_cases hzero : Nat.digitChar n = '0'
      · exact .inl (by rw [hzero])
      · exact .inr ⟨_, [], rfl, hzero⟩
    · rw [Nat.toDigits_of_base_le (by decide) (by omega)]
      rcases ih (n / 10) (by omega) with hzero | ⟨c, tail, hdigits, hc⟩
      · -- What is left of ten or more is not zero.
        have hvalue : Nat.ofDigitChars 10 (Nat.toDigits 10 (n / 10)) 0 = n / 10 :=
          Nat.ofDigitChars_ten_toDigits
        rw [hzero] at hvalue
        have hnone : Nat.ofDigitChars 10 ['0'] 0 = 0 := rfl
        omega
      · exact .inr ⟨c, tail ++ [Nat.digitChar (n % 10)], by rw [hdigits]; rfl, hc⟩

/-- Every number has a digit, zero as well. -/
theorem repr_ne_nil (n : Nat) : (toString n).toList ≠ [] := by
  rw [Nat.toString_eq_repr, Nat.toList_repr]
  exact Nat.toDigits_ne_nil

/-- The digits of a number have its value, since they are read from the front as they were written.
-/
theorem digitsValue_repr (n : Nat) : digitsValue (toString n).toList = n := by
  have hvalue : Nat.ofDigitChars 10 (Nat.toDigits 10 n) 0 = n := Nat.ofDigitChars_ten_toDigits
  rw [Nat.toString_eq_repr, Nat.toList_repr]
  -- Both take ten times what they have and add a digit; only the factors are swapped.
  refine Eq.trans ?_ hvalue
  unfold digitsValue digitValue Nat.ofDigitChars
  simp only [Nat.mul_comm]

end CommandCompletion.Text
