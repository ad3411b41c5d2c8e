import ApiContract.Proofs.Idempotence

/-!
# Each stage by itself

What a stage of normalization has left is a fixed point of this stage, whether or not the value will pass the
check: cleaning (`clean_clean`, and `cleanHeaders_cleanHeaders` for headers), filling and conversion
(`stages_idempotent`).

Of headers the names are to be looked at. Two of them may become one name, so the second cleaning starts from
other keys than the first did. But each key that is left is found under its own spelling (`Settled`), and the
keys that are left differ.
-/

namespace ApiContract.Schema

/-! ### Cleaning -/

/-- Cleaning leaves a cleaned entry as it is. -/
theorem cleanedEntry_cleanedEntry {f : ObjectFields} {ps : List (Value × Schema)}
    (ih : ∀ p ∈ ps, ∀ v, p.2.clean (p.2.clean v) = p.2.clean v) (e : Value × Value) :
    (cleanedEntry f ps e).bind (cleanedEntry f ps) = cleanedEntry f ps e := by
  cases hfound : property? e.1 ps with
  | some s =>
      obtain ⟨p, hp, rfl⟩ := exists_of_property? hfound
      have hentry (v : Value) : cleanedEntry f ps (e.1, v) = some (e.1, p.2.clean v) := by
        simp [cleanedEntry, hfound]
      have hcleaned : cleanedEntry f ps e = some (e.1, p.2.clean e.2) := hentry e.2
      rw [hcleaned, Option.bind_some, hentry, ih p hp]
  | none =>
      cases hopen : f.additional with
      | true => simp [cleanedEntry, hfound, hopen]
      | false => simp [cleanedEntry, hfound, hopen]

theorem clean_clean (s : Schema) (v : Value) : s.clean (s.clean v) = s.clean v := by
  induction s using Schema.induction generalizing v with
  | array a f items ih =>
      cases hitems : v.items? with
      | none => rw [clean_array_of_no_items hitems, clean_array_of_no_items hitems]
      | some xs =>
          rw [clean_array_of_items hitems, clean_array_of_items rfl, List.map_map]
          congr 1
          apply List.map_congr_left
          intro x _
          exact ih x
  | object a f ps ih =>
      cases v with
      | dict entries =>
          rw [clean_dict, clean_dict, List.filterMap_filterMap]
          congr 1
          apply List.filterMap_congr
          intro e _
          exact cleanedEntry_cleanedEntry ih e
      | _ => rfl
  | nullable a inner ih => simp only [clean_nullable, ih]
  | refined a r base ih => exact ih v
  | _ => rfl

/-! ### Cleaning headers -/

/-- A key that is found under its own spelling, or not at all. -/
def Settled (names : List (String × Value)) (key : Value) : Prop :=
  ∃ text, key.plain = .ok text ∧ (names.lookup (Text.toLower text)).getD key = key

/-- What a key is renamed to is settled: a declared name is found under the lower-case form it shares with the
key. -/
theorem settled_rename {ps : List (Value × Schema)} {names : List (String × Value)}
    (h : foldedNames ps = .ok names) {key : Value} {text : String} (hkey : key.plain = .ok text) :
    Settled names ((names.lookup (Text.toLower text)).getD key) := by
  cases hfound : names.lookup (Text.toLower text) with
  | none =>
      refine ⟨text, hkey, ?_⟩
      rw [hfound]
      rfl
  | some key' =>
      obtain ⟨p, -, name, -, hfolded, rfl⟩ := of_lookup_foldedNames h hfound
      refine ⟨name, rfl, ?_⟩
      rw [← hfolded, hfound]
      rfl

theorem settled_of_renameHeaders {ps : List (Value × Schema)} {names : List (String × Value)}
    (hnames : foldedNames ps = .ok names) {entries renamed : List (Value × Value)}
    (h : renameHeaders ps entries = .ok renamed) :
    Value.KeysDiffer renamed ∧ ∀ e ∈ renamed, Settled names e.1 := by
  obtain ⟨names', hnames', h⟩ := bind_eq_ok_iff.mp h
  obtain rfl := Except.ok.inj (hnames'.symm.trans hnames)
  obtain ⟨pairs, hpairs, h⟩ := bind_eq_ok_iff.mp h
  obtain rfl := Except.ok.inj h
  refine ⟨Value.keysDiffer_ofEntries pairs, fun e he => ?_⟩
  refine (Value.forall_ofEntries (Q := fun _ => True) ?_ e he).1
  intro e' he'
  obtain ⟨e, -, hstep⟩ := exists_left_of_forall₂ (mapM_eq_ok_iff.mp hpairs) he'
  obtain ⟨text, htext, hstep⟩ := bind_eq_ok_iff.mp hstep
  obtain rfl := Except.ok.inj hstep
  exact ⟨settled_rename hnames htext, trivial⟩

/-- Settled keys that differ are not renamed. -/
theorem renameHeaders_of_settled {ps : List (Value × Schema)} {names : List (String × Value)}
    (hnames : foldedNames ps = .ok names) {entries : List (Value × Value)}
    (hdiffer : Value.KeysDiffer entries) (h : ∀ e ∈ entries, Settled names e.1) :
    renameHeaders ps entries = .ok entries := by
  refine bind_eq_ok_iff.mpr ⟨names, hnames, bind_eq_ok_iff.mpr ⟨entries, ?_, ?_⟩⟩
  · rw [mapM_eq_ok_iff, List.forall₂_same]
    intro e he
    obtain ⟨text, htext, hsettled⟩ := h e he
    refine bind_eq_ok_iff.mpr ⟨text, htext, ?_⟩
    exact congrArg Except.ok (Prod.ext hsettled rfl)
  · rw [Value.ofEntries_of_keysDiffer hdiffer]
    rfl

theorem cleanHeaders_cleanHeaders {s : Schema} {v w : Value} (h : s.cleanHeaders v = .ok w) :
    s.cleanHeaders w = .ok w := by
  induction s using Schema.induction generalizing v w with
  | object a f ps ih =>
      cases v with
      | dict entries =>
          obtain ⟨renamed, hrenamed, h⟩ := bind_eq_ok_iff.mp h
          obtain rfl := Except.ok.inj h
          obtain ⟨names, hnames, -⟩ := bind_eq_ok_iff.mp hrenamed
          obtain ⟨hdiffer, hsettled⟩ := settled_of_renameHeaders hnames hrenamed
          -- cleaning takes keys away and changes none
          have hcleaned := clean_dict a f ps renamed
          have hagain : renameHeaders ps (renamed.filterMap (cleanedEntry f ps)) =
              .ok (renamed.filterMap (cleanedEntry f ps)) := by
            apply renameHeaders_of_settled hnames (keysDiffer_cleanedEntries hdiffer)
            intro e' he'
            obtain ⟨e, he, hentry⟩ := List.mem_filterMap.mp he'
            rw [(of_cleanedEntry hentry).1]
            exact hsettled e he
          rw [hcleaned]
          refine bind_eq_ok_iff.mpr ⟨_, hagain, ?_⟩
          rw [← hcleaned, clean_clean]
          rfl
      | _ =>
          obtain rfl := Except.ok.inj h
          rfl
  | nullable a inner ih =>
      rw [cleanHeaders_nullable] at h ⊢
      exact ih h
  | refined a r base ih => exact ih h
  | _ =>
      obtain rfl := Except.ok.inj h
      exact congrArg Except.ok (clean_clean _ v)

theorem cleanFor_cleanFor (s : Schema) (t : Option Target) (v : Value) :
    (s.cleanFor t v >>= s.cleanFor t) = s.cleanFor t v := by
  cases hcleaned : s.cleanFor t v with
  | error e => rfl
  | ok w =>
      show s.cleanFor t w = .ok w
      unfold cleanFor at hcleaned ⊢
      split at hcleaned
      · rename_i hheader
        rw [if_pos hheader]
        exact cleanHeaders_cleanHeaders hcleaned
      · rename_i hother
        obtain rfl := Except.ok.inj hcleaned
        rw [if_neg hother, clean_clean]

/-! ### All stages -/

/-- **Each stage of normalization is idempotent**, on every value and for every target: cleaning, filling and
conversion leave what they have left themselves as it is. -/
theorem stages_idempotent {s : Schema} {validator : Validator} (hcompile : s.compile = .ok validator)
    (hs : s.Everywhere DeclaresOnce) (t : Option Target) (v : Value) :
    (s.cleanFor t v >>= s.cleanFor t) = s.cleanFor t v ∧
      s.applyDefaults (s.applyDefaults v) = s.applyDefaults v ∧
      ∀ w, s.convertFor t v = .ok w → s.convertFor t w = .ok w := by
  refine ⟨cleanFor_cleanFor s t v, ?_, ?_⟩
  · exact applyDefaults_applyDefaults (named_of_compileAt hcompile hs) v
  · intro w hw
    exact convert_convert hw

/-- Two headers become one name, and what is left is invalid: the text stands for an array of a text where
integers are declared. -/
theorem stages_idempotent_paged :
    ∃ validator, Pipeline.paged.compile = .ok validator ∧ Pipeline.paged.Everywhere DeclaresOnce ∧
      Pipeline.paged.cleanFor (some .header)
          (.record [("x-tags", .str "1"), ("Host", .str "a"), ("X-TAGS", .str "b")]) =
        .ok (.record [("X-Tags", .str "b")]) ∧
      Pipeline.paged.cleanFor (some .header) (.record [("X-Tags", .str "b")]) =
        .ok (.record [("X-Tags", .str "b")]) ∧
      Pipeline.paged.applyDefaults (.record [("X-Tags", .str "b")]) =
        .record [("X-Tags", .str "b"), ("X-Limit", .int 10)] ∧
      Pipeline.paged.applyDefaults (.record [("X-Tags", .str "b"), ("X-Limit", .int 10)]) =
        .record [("X-Tags", .str "b"), ("X-Limit", .int 10)] ∧
      Pipeline.paged.convertFor (some .header) (.record [("X-Tags", .str "b")]) =
        .ok (.record [("X-Tags", .list [.str "b"])]) ∧
      Pipeline.paged.convertFor (some .header) (.record [("X-Tags", .list [.str "b"])]) =
        .ok (.record [("X-Tags", .list [.str "b"])]) := by
  have hs : Pipeline.paged.Everywhere DeclaresOnce := Pipeline.wellFormed_paged.declaresOnce
  obtain ⟨validator, hcompile⟩ : ∃ validator, Pipeline.paged.compile = .ok validator := ⟨_, rfl⟩
  have hcleaned : Pipeline.paged.cleanFor (some .header)
      (.record [("x-tags", .str "1"), ("Host", .str "a"), ("X-TAGS", .str "b")]) =
        .ok (.record [("X-Tags", .str "b")]) := by with_unfolding_all rfl
  have hfilled : Pipeline.paged.applyDefaults (.record [("X-Tags", .str "b")]) =
      .record [("X-Tags", .str "b"), ("X-Limit", .int 10)] := by with_unfolding_all rfl
  have hconverted : Pipeline.paged.convertFor (some .header) (.record [("X-Tags", .str "b")]) =
      .ok (.record [("X-Tags", .list [.str "b"])]) := by with_unfolding_all rfl
  obtain ⟨hcleanedAgain, -, -⟩ := stages_idempotent hcompile hs (some .header)
    (.record [("x-tags", .str "1"), ("Host", .str "a"), ("X-TAGS", .str "b")])
  obtain ⟨-, hfilledAgain, hstays⟩ :=
    stages_idempotent hcompile hs (some .header) (.record [("X-Tags", .str "b")])
  rw [hcleaned] at hcleanedAgain
  rw [hfilled] at hfilledAgain
  exact ⟨validator, hcompile, hs, hcleaned, hcleanedAgain, hfilled, hfilledAgain, hconverted,
    hstays _ hconverted⟩

end ApiContract.Schema
