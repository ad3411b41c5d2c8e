import ApiContract.Proofs.IntegerText

/-!
# Numerals as text

The grammar of integer and decimal numerals, with the digits of any script (`IntegerForm`, `NumeralForm`). The
tests that conversion makes decide it (`Convert.isIntegerText_iff`, `Convert.isNumeralText_iff`). A numeral has
a value (`exists_readFloat?`), also with a line feed behind it (`Convert.exists_toFloat`), so conversion toward
a number gives a result for every value (`Convert.exists_number`).
-/

namespace ApiContract

namespace Numeral

open ApiContract.Text

/-! ### The grammar of numerals -/

/-- A sign, or nothing. -/
def IsSign (cs : List Char) : Prop := cs = [] ∨ cs = ['+'] ∨ cs = ['-']

/-- An integer numeral: at least one digit behind a sign, if there is one. -/
inductive IntegerForm : List Char → Prop
  | intro {sign ds : List Char} (hsign : IsSign sign) (hdigits : IsDigits ds) (hne : ds ≠ []) :
      IntegerForm (sign ++ ds)

/-- Digits with at most one point among them, and not the point alone. -/
inductive MantissaForm : List Char → Prop
  | whole {ds : List Char} (hdigits : IsDigits ds) (hne : ds ≠ []) : MantissaForm ds
  | pointed {ds fs : List Char} (hwhole : IsDigits ds) (hfraction : IsDigits fs) (hne : ds ≠ [] ∨ fs ≠ []) :
      MantissaForm (ds ++ '.' :: fs)

/-- The letter of an exponent and an integer numeral, or nothing. -/
inductive ExponentForm : List Char → Prop
  | none : ExponentForm []
  | some {e : Char} {cs : List Char} (hletter : e = 'e' ∨ e = 'E') (hcs : IntegerForm cs) :
      ExponentForm (e :: cs)

/-- A decimal numeral: a sign, digits with a point and an exponent, of which only digits have to be there. -/
inductive NumeralForm : List Char → Prop
  | intro {sign ms es : List Char} (hsign : IsSign sign) (hmantissa : MantissaForm ms)
      (hexponent : ExponentForm es) : NumeralForm (sign ++ (ms ++ es))

/-! ### Signs -/

/-- Behind a sign comes what does not start with one. -/
theorem takeSign_append {sign cs : List Char} (hsign : IsSign sign)
    (hplus : cs.head? ≠ some '+') (hminus : cs.head? ≠ some '-') : (takeSign (sign ++ cs)).2 = cs := by
  rcases hsign with rfl | rfl | rfl
  · rw [List.nil_append]
    unfold takeSign
    split
    · exact absurd rfl hplus
    · exact absurd rfl hminus
    · rfl
  · rfl
  · rfl

/-- A text is a sign, if there is one, and the rest. -/
theorem exists_sign (cs : List Char) : ∃ sign, IsSign sign ∧ cs = sign ++ (takeSign cs).2 := by
  unfold takeSign
  split
  · exact ⟨['+'], .inr (.inl rfl), rfl⟩
  · exact ⟨['-'], .inr (.inr rfl), rfl⟩
  · exact ⟨[], .inl rfl, rfl⟩

/-! ### Digits -/

theorem IsDigits.head?_ne {ds : List Char} (hds : IsDigits ds) {c : Char} (hc : isDecimalDigit c = false) :
    ds.head? ≠ some c := by
  intro h
  rw [hds c (List.mem_of_mem_head? h)] at hc
  cases hc

theorem isDigits_nil : IsDigits [] := List.forall_mem_nil _

theorem IsDigits.append {ds fs : List Char} (hds : IsDigits ds) (hfs : IsDigits fs) : IsDigits (ds ++ fs) :=
  List.forall_mem_append.mpr ⟨hds, hfs⟩

theorem isDigits_takeWhile (cs : List Char) : IsDigits (cs.takeWhile isDecimalDigit) :=
  List.all_eq_true.mp List.all_takeWhile

theorem takeWhile_digits_append {ds cs : List Char} (hds : IsDigits ds)
    (hcs : cs.takeWhile isDecimalDigit = []) : (ds ++ cs).takeWhile isDecimalDigit = ds := by
  rw [List.takeWhile_append_of_pos hds, hcs, List.append_nil]

theorem dropWhile_digits_append {ds cs : List Char} (hds : IsDigits ds)
    (hcs : cs.takeWhile isDecimalDigit = []) : (ds ++ cs).dropWhile isDecimalDigit = cs := by
  rw [List.dropWhile_append_of_pos hds]
  simpa [hcs] using List.takeWhile_append_dropWhile (p := isDecimalDigit) (l := cs)

/-- Digits have a value. -/
theorem exists_ofDigits? {ds : List Char} (hdigits : IsDigits ds) (hne : ds ≠ []) :
    ∃ n, ofDigits? ds = some n := by
  have hfold (start : Nat) :
      ∃ n, ds.foldlM (fun n c => (digitValue? c).map (10 * n + ·)) start = some n := by
    clear hne
    induction ds generalizing start with
    | nil => exact ⟨start, rfl⟩
    | cons c ds ih =>
        obtain ⟨d, hd⟩ := Option.isSome_iff_exists.mp (hdigits c List.mem_cons_self)
        obtain ⟨n, hn⟩ := ih (fun c hc => hdigits c (List.mem_cons_of_mem _ hc)) (10 * start + d)
        refine ⟨n, ?_⟩
        rw [List.foldlM_cons, hd]
        exact hn
  unfold ofDigits?
  rw [if_neg (by simpa using hne)]
  exact hfold 0

theorem takeSign_of_integerForm {cs : List Char} (h : IntegerForm cs) :
    IsDigits (takeSign cs).2 ∧ (takeSign cs).2 ≠ [] := by
  obtain ⟨hsign, hdigits, hne⟩ := h
  rw [takeSign_append hsign (hdigits.head?_ne (by decide)) (hdigits.head?_ne (by decide))]
  exact ⟨hdigits, hne⟩

/-! ### Blanks -/

theorem IsSign.isBlank_of_mem {sign : List Char} (h : IsSign sign) {c : Char} (hc : c ∈ sign) :
    isBlank c = false := by
  rcases h with rfl | rfl | rfl
  · cases hc
  · rw [List.mem_singleton.mp hc]
    decide
  · rw [List.mem_singleton.mp hc]
    decide

theorem IntegerForm.isBlank_of_mem {cs : List Char} (h : IntegerForm cs) {c : Char} (hc : c ∈ cs) :
    isBlank c = false := by
  obtain ⟨hsign, hdigits, -⟩ := h
  rcases List.mem_append.mp hc with hc | hc
  · exact hsign.isBlank_of_mem hc
  · exact isBlank_of_isDecimalDigit (hdigits c hc)

theorem MantissaForm.isBlank_of_mem {ms : List Char} (h : MantissaForm ms) {c : Char} (hc : c ∈ ms) :
    isBlank c = false := by
  cases h with
  | whole hdigits _ => exact isBlank_of_isDecimalDigit (hdigits c hc)
  | pointed hwhole hfraction _ =>
      rcases List.mem_append.mp hc with hc | hc
      · exact isBlank_of_isDecimalDigit (hwhole c hc)
      · rcases List.mem_cons.mp hc with rfl | hc
        · decide
        · exact isBlank_of_isDecimalDigit (hfraction c hc)

theorem ExponentForm.isBlank_of_mem {es : List Char} (h : ExponentForm es) {c : Char} (hc : c ∈ es) :
    isBlank c = false := by
  cases h with
  | none => cases hc
  | some hletter hcs =>
      rcases List.mem_cons.mp hc with rfl | hc
      · rcases hletter with rfl | rfl <;> decide
      · exact hcs.isBlank_of_mem hc

theorem NumeralForm.isBlank_of_mem {cs : List Char} (h : NumeralForm cs) {c : Char} (hc : c ∈ cs) :
    isBlank c = false := by
  obtain ⟨hsign, hmantissa, hexponent⟩ := h
  rcases List.mem_append.mp hc with hc | hc
  · exact hsign.isBlank_of_mem hc
  · rcases List.mem_append.mp hc with hc | hc
    · exact hmantissa.isBlank_of_mem hc
    · exact hexponent.isBlank_of_mem hc

/-! ### Mantissa and exponent -/

theorem ExponentForm.takeWhile_eq_nil {es : List Char} (h : ExponentForm es) :
    es.takeWhile isDecimalDigit = [] := by
  cases h with
  | none => rfl
  | some hletter _ => rcases hletter with rfl | rfl <;> rfl

/-- A numeral has a digit or a point behind its sign. -/
theorem MantissaForm.head?_ne {ms es : List Char} (h : MantissaForm ms) {c : Char}
    (hdigit : isDecimalDigit c = false) (hpoint : c ≠ '.') : (ms ++ es).head? ≠ some c := by
  cases h with
  | whole hdigits hne =>
      rw [List.head?_append_of_ne_nil _ hne]
      exact hdigits.head?_ne hdigit
  | @pointed ds fs hwhole _ _ =>
      cases ds with
      | nil =>
          intro h
          exact hpoint (Option.some.inj h).symm
      | cons d ds =>
          exact hwhole.head?_ne hdigit

/-- The mantissa is taken off before an exponent. -/
theorem takeMantissa_append {ms es : List Char} (hms : MantissaForm ms) (hes : ExponentForm es) :
    ∃ ds fs, takeMantissa (ms ++ es) = (ds, fs, es) ∧ (ds.isEmpty && fs.isEmpty) = false := by
  cases hms with
  | whole hdigits hne =>
      refine ⟨ms, [], ?_, by simpa using hne⟩
      unfold takeMantissa
      rw [takeWhile_digits_append hdigits hes.takeWhile_eq_nil,
        dropWhile_digits_append hdigits hes.takeWhile_eq_nil]
      cases hes with
      | none => rfl
      | some hletter _ => rcases hletter with rfl | rfl <;> rfl
  | @pointed ds fs hwhole hfraction hne =>
      refine ⟨ds, fs, ?_, by simpa [or_iff_not_imp_left] using hne⟩
      unfold takeMantissa
      rw [List.append_assoc, List.cons_append, takeWhile_digits_append hwhole rfl,
        dropWhile_digits_append hwhole rfl]
      show (ds, (fs ++ es).takeWhile isDecimalDigit, (fs ++ es).dropWhile isDecimalDigit) = (ds, fs, es)
      rw [takeWhile_digits_append hfraction hes.takeWhile_eq_nil,
        dropWhile_digits_append hfraction hes.takeWhile_eq_nil]

/-- What is taken off a text is a mantissa, unless it holds no digit. -/
theorem mantissaForm_of_takeMantissa {body ds fs rest : List Char} (h : takeMantissa body = (ds, fs, rest))
    (hne : (ds.isEmpty && fs.isEmpty) = false) : ∃ ms, MantissaForm ms ∧ body = ms ++ rest := by
  have hbody := List.takeWhile_append_dropWhile (p := isDecimalDigit) (l := body)
  unfold takeMantissa at h
  dsimp only at h
  split at h
  · rename_i r hr
    cases h
    refine ⟨_, .pointed (isDigits_takeWhile body) (isDigits_takeWhile r)
      (by simpa [or_iff_not_imp_left] using hne), ?_⟩
    rw [List.append_assoc, List.cons_append, List.takeWhile_append_dropWhile, ← hr, hbody]
  · cases h
    exact ⟨_, .whole (isDigits_takeWhile body) (by simpa using hne), hbody.symm⟩

theorem exists_readExponent? {es : List Char} (h : ExponentForm es) : ∃ n, readExponent? es = some n := by
  cases h with
  | none => exact ⟨0, rfl⟩
  | some hletter hcs =>
      obtain ⟨hdigits, hne⟩ := takeSign_of_integerForm hcs
      obtain ⟨n, hn⟩ := exists_ofDigits? hdigits hne
      rw [readExponent?, if_pos (by simpa using hletter)]
      dsimp only
      rw [hn]
      exact ⟨_, rfl⟩

/-- Behind its sign a numeral has a mantissa and an exponent. -/
theorem exists_takeMantissa {cs : List Char} (h : NumeralForm cs) :
    ∃ ds fs es, takeMantissa (takeSign cs).2 = (ds, fs, es) ∧ (ds.isEmpty && fs.isEmpty) = false ∧
      ExponentForm es := by
  obtain ⟨hsign, hmantissa, hexponent⟩ := h
  obtain ⟨ds, fs, htake, hne⟩ := takeMantissa_append hmantissa hexponent
  rw [takeSign_append hsign (hmantissa.head?_ne (by decide) (by decide))
    (hmantissa.head?_ne (by decide) (by decide))]
  exact ⟨ds, fs, _, htake, hne, hexponent⟩

/-- A numeral is read. -/
theorem exists_readFloat? {cs : List Char} (h : NumeralForm cs) : ∃ x, readFloat? cs = some x := by
  obtain ⟨ds, fs, es, hmantissa, hne, hexponent⟩ := exists_takeMantissa h
  obtain ⟨n, hn⟩ := exists_readExponent? hexponent
  refine ⟨Parts.toBinary64 ⟨(takeSign cs).1, ds, fs, n⟩, ?_⟩
  unfold readFloat? readParts?
  dsimp only
  rw [hmantissa]
  dsimp only
  rw [hne, if_neg Bool.false_ne_true, hn]
  rfl

end Numeral

namespace Convert

open Numeral ApiContract.Text

/-! ### Tests on texts -/

theorem isIntegerText_iff {cs : List Char} : isIntegerText cs = true ↔ IntegerForm cs := by
  unfold isIntegerText
  simp only [Bool.and_eq_true, Bool.not_eq_true', List.isEmpty_eq_false_iff, List.all_eq_true]
  constructor
  · rintro ⟨hne, hdigits⟩
    obtain ⟨sign, hsign, hcs⟩ := exists_sign cs
    rw [hcs]
    exact .intro hsign hdigits hne
  · intro h
    obtain ⟨hdigits, hne⟩ := takeSign_of_integerForm h
    exact ⟨hne, hdigits⟩

theorem isExponentText_iff {es : List Char} : isExponentText es = true ↔ ExponentForm es := by
  cases es with
  | nil => exact iff_of_true rfl .none
  | cons e cs =>
      unfold isExponentText
      rw [Bool.and_eq_true, isIntegerText_iff]
      constructor
      · rintro ⟨hletter, hcs⟩
        exact .some (by simpa using hletter) hcs
      · rintro ⟨⟩
        rename_i hletter hcs
        exact ⟨by simpa using hletter, hcs⟩

theorem isNumeralText_iff {cs : List Char} : isNumeralText cs = true ↔ NumeralForm cs := by
  constructor
  · intro h
    obtain ⟨sign, hsign, hcs⟩ := exists_sign cs
    unfold isNumeralText at h
    rcases hmantissa : takeMantissa (takeSign cs).2 with ⟨ds, fs, es⟩
    rw [hmantissa] at h
    dsimp only at h
    rw [Bool.and_eq_true, Bool.not_eq_true', isExponentText_iff] at h
    obtain ⟨ms, hms, hbody⟩ := mantissaForm_of_takeMantissa hmantissa h.1
    rw [hcs, hbody]
    exact .intro hsign hms h.2
  · intro h
    obtain ⟨ds, fs, es, hmantissa, hne, hexponent⟩ := exists_takeMantissa h
    unfold isNumeralText
    rw [hmantissa]
    dsimp only
    rw [hne, isExponentText_iff.mpr hexponent]
    rfl

/-! ### Results of conversion -/

/-- Where only a line feed at the end is blank, it is what trimming takes away. -/
theorem trimBlanks_eq_dropFinalNewline {cs : List Char} (h : ∀ c ∈ dropFinalNewline cs, isBlank c = false) :
    trimBlanks cs = dropFinalNewline cs := by
  unfold dropFinalNewline at h ⊢
  split_ifs at h ⊢ with hlast
  · obtain ⟨ds, rfl⟩ : ∃ ds, cs = ds ++ ['\n'] :=
      ⟨cs.dropLast, (List.dropLast_append_getLast? '\n' (by simpa using hlast)).symm⟩
    rw [List.dropLast_concat] at h ⊢
    exact trimBlanks_concat h (by decide)
  · exact trimBlanks_of_no_blank h

theorem exists_toFloat {text : List Char} (h : isNumeralText (dropFinalNewline text) = true) :
    ∃ x, toFloat text = .ok x := by
  have hform := isNumeralText_iff.mp h
  obtain ⟨x, hx⟩ := exists_readFloat? hform
  refine ⟨x, ?_⟩
  unfold toFloat
  dsimp only
  rw [trimBlanks_eq_dropFinalNewline fun c hc => hform.isBlank_of_mem hc, hx]

/-- What a text is converted to: itself, the integer that an integer numeral is read as, or the number that
a decimal numeral is read as where the leaf admits it. -/
theorem numberOfText_cases {integral : Bool} {s : String} {w : Value}
    (h : numberOfText integral s = .ok w) :
    w = .str s ∨
      (isIntegerText (dropFinalNewline s.toList) = true ∧ ∃ n, readInt? s.toList = some n ∧ w = .int n) ∨
        (isNumeralText (dropFinalNewline s.toList) = true ∧
          ∃ x, toFloat s.toList = .ok x ∧ w = admitted integral s x) := by
  unfold numberOfText at h
  dsimp only at h
  split_ifs at h with hinteger hnumeral
  · split at h
    · rename_i n hn
      exact .inr (.inl ⟨hinteger, n, hn, (Except.ok.inj h).symm⟩)
    · exact .inl (Except.ok.inj h).symm
  · obtain ⟨x, hx, h⟩ := bind_eq_ok_iff.mp h
    exact .inr (.inr ⟨hnumeral, x, hx, (Except.ok.inj h).symm⟩)
  · exact .inl (Except.ok.inj h).symm

/-- A number that a text denotes is admitted as an integer or as it is, or the text stays. -/
theorem admitted_cases (integral : Bool) (s : String) (x : Binary64) :
    admitted integral s x = .str s ∨ (∃ n, x.toInt? = some n ∧ admitted integral s x = .int n) ∨
      (integral = false ∧ x.isFinite = true ∧ admitted integral s x = .float x) := by
  unfold admitted
  split_ifs with hfinite hintegral
  · exact .inl rfl
  · split
    · rename_i n hn
      exact .inr (.inl ⟨n, hn, rfl⟩)
    · exact .inl rfl
  · exact .inr (.inr ⟨by simpa using hintegral, by simpa using hfinite, rfl⟩)

theorem exists_numberOfText (integral : Bool) (s : String) : ∃ w, numberOfText integral s = .ok w := by
  unfold numberOfText
  dsimp only
  split_ifs with hinteger hnumeral
  · split
    · exact ⟨_, rfl⟩
    · exact ⟨_, rfl⟩
  · obtain ⟨x, hx⟩ := exists_toFloat hnumeral
    rw [hx]
    exact ⟨_, rfl⟩
  · exact ⟨_, rfl⟩

/-- A floating-point number is kept or becomes the integer that it equals. -/
theorem number_float (integral : Bool) (x : Binary64) :
    number integral (.float x) = .ok (.float x) ∨
      ∃ n, x.toInt? = some n ∧ number integral (.float x) = .ok (.int n) := by
  unfold number
  dsimp only
  split_ifs
  · split
    · rename_i n hn
      exact .inr ⟨n, hn, rfl⟩
    · exact .inl rfl
  · exact .inl rfl

/-- Conversion toward a number gives a result. -/
theorem exists_number (integral : Bool) (v : Value) : ∃ w, number integral v = .ok w := by
  cases v with
  | str s => exact exists_numberOfText integral s
  | float x =>
      rcases number_float integral x with hkept | ⟨n, -, hint⟩
      · exact ⟨_, hkept⟩
      · exact ⟨_, hint⟩
  | _ => exact ⟨_, rfl⟩

end Convert

end ApiContract
