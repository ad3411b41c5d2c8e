import ApiContract.Proofs.Cleaning
import ApiContract.Proofs.Filling

/-!
# Names of headers

The names of headers at the root are matched without regard to case and take the declared spelling. A name
that has been matched is spelled as declared (`headersSpelled_of_cleanHeaders`), filling and conversion
keep it so, and such a name is not changed again (`cleanHeaders_of_spelled`).
-/

namespace ApiContract

/-! ### Entries bound one after the other -/

namespace Value

/-- Binding gives no key and no item that was not there before. -/
theorem forall_bind {P Q : Value → Prop} {entries : List (Value × Value)} {key v : Value}
    (h : ∀ e ∈ entries, P e.1 ∧ Q e.2) (hkey : P key) (hv : Q v) :
    ∀ e ∈ bind entries key v, P e.1 ∧ Q e.2 := by
  intro e he
  unfold bind at he
  split at he
  · obtain ⟨e, hmem, rfl⟩ := List.mem_map.mp he
    split
    · exact ⟨(h e hmem).1, hv⟩
    · exact h e hmem
  · rcases List.mem_append.mp he with he | he
    · exact h e he
    · obtain rfl := List.mem_singleton.mp he
      exact ⟨hkey, hv⟩

theorem keysDiffer_bind {entries : List (Value × Value)} (h : KeysDiffer entries) (key v : Value) :
    KeysDiffer (bind entries key v) := by
  unfold bind
  split
  · refine h.congr ?_
    rw [List.map_map]
    refine List.map_congr_left fun e _ => ?_
    simp only [Function.comp_apply]
    split <;> rfl
  · rename_i hnew
    refine List.pairwise_append.mpr ⟨h, List.pairwise_singleton _ _, fun e he e' he' => ?_⟩
    obtain rfl := List.mem_singleton.mp he'
    rw [Bool.eq_false_iff]
    exact fun hsame => hnew (hasKey_iff.mpr ⟨e, he, hsame⟩)

theorem forall_ofEntries {P Q : Value → Prop} {entries : List (Value × Value)}
    (h : ∀ e ∈ entries, P e.1 ∧ Q e.2) : ∀ e ∈ ofEntries entries, P e.1 ∧ Q e.2 := by
  refine List.foldlRecOn entries _
    (motive := fun es : List (Value × Value) => ∀ e ∈ es, P e.1 ∧ Q e.2) ?_ ?_
  · intro e he
    cases he
  · intro es hes e he
    exact forall_bind hes (h e he).1 (h e he).2

theorem keysDiffer_ofEntries (entries : List (Value × Value)) : KeysDiffer (ofEntries entries) := by
  refine List.foldlRecOn entries _ (motive := KeysDiffer) .nil ?_
  intro es hes e _
  exact keysDiffer_bind hes e.1 e.2

/-- Entries with differing keys stay as they are when they are bound one after the other. -/
theorem ofEntries_of_keysDiffer {entries : List (Value × Value)} (h : KeysDiffer entries) :
    ofEntries entries = entries := by
  suffices hfold : ∀ bound rest, KeysDiffer (bound ++ rest) →
      rest.foldl (fun es e => bind es e.1 e.2) bound = bound ++ rest from hfold [] entries h
  -- the entries bound so far are what has been read
  intro bound rest hdiffer
  induction rest generalizing bound with
  | nil => exact (List.append_nil bound).symm
  | cons e rest ih =>
      have hnew : hasKey e.1 bound = false := by
        rw [Bool.eq_false_iff]
        intro hkey
        obtain ⟨e', he', hsame⟩ := hasKey_iff.mp hkey
        rw [(List.pairwise_append.mp hdiffer).2.2 e' he' e List.mem_cons_self] at hsame
        cases hsame
      have hbind : bind bound e.1 e.2 = bound ++ [e] := by
        rw [bind, hnew]
        rfl
      rw [List.foldl_cons, hbind]
      have hassoc : bound ++ e :: rest = bound ++ [e] ++ rest := by
        rw [List.append_assoc, List.singleton_append]
      rw [hassoc] at hdiffer ⊢
      exact ih _ hdiffer

/-- A key that has been bound has its value. -/
theorem mem_bind (entries : List (Value × Value)) (name : String) (v : Value) :
    (.str name, v) ∈ bind entries (.str name) v := by
  unfold bind
  split
  · rename_i hkey
    obtain ⟨e, he, hsame⟩ := hasKey_iff.mp hkey
    refine List.mem_map.mpr ⟨e, he, ?_⟩
    rw [if_pos hsame, same_str_left.mp hsame]
  · exact List.mem_append_right _ (List.mem_singleton_self _)

/-- Binding another key changes nothing under a text. -/
theorem lookup?_bind_of_ne {name : String} {key : Value} (hne : key ≠ .str name) (entries : List (Value × Value))
    (v : Value) : lookup? (.str name) (bind entries key v) = lookup? (.str name) entries := by
  unfold bind lookup?
  split
  · have hkeys : (fun e : Value × Value => (Value.str name).same e.1) ∘
        (fun e => if key.same e.1 then (e.1, v) else e) = fun e => (Value.str name).same e.1 := by
      funext e
      simp only [Function.comp_apply]
      split <;> rfl
    rw [List.find?_map, hkeys, Option.map_map]
    cases hfound : entries.find? fun e => (Value.str name).same e.1 with
    | none => rfl
    | some e =>
        have hname := List.find?_some hfound
        rw [same_str_left] at hname
        have hother : key.same e.1 = false := by
          rwa [hname, Bool.eq_false_iff, ne_eq, same_str_right]
        simp [hother]
  · have hother : (Value.str name).same key = false := by
      rwa [Bool.eq_false_iff, ne_eq, same_str_left]
    simp [List.find?_append, hother]

/-- Of entries that are bound one after the other the last one under a text counts. -/
theorem lookup?_ofEntries (name : String) (entries : List (Value × Value)) :
    lookup? (.str name) (ofEntries entries) =
      ((entries.filter fun e => (Value.str name).same e.1).getLast?).map (·.2) := by
  induction entries using List.reverseRecOn with
  | nil => rfl
  | append_singleton entries e ih =>
      have hbind : ofEntries (entries ++ [e]) = bind (ofEntries entries) e.1 e.2 := by
        rw [ofEntries, List.foldl_append]
        rfl
      rw [hbind, List.filter_append]
      by_cases hname : e.1 = .str name
      · have hmem := mem_bind (ofEntries entries) name e.2
        have hfound := lookup?_of_mem (keysDiffer_bind (keysDiffer_ofEntries entries) _ _) hmem
        rw [hname, hfound]
        simp [hname]
      · have hother : (Value.str name).same e.1 = false := by
          rwa [Bool.eq_false_iff, ne_eq, same_str_left]
        rw [lookup?_bind_of_ne hname, ih]
        simp [hother]

end Value

namespace Schema

/-! ### Declared spelling -/

/-- A key that is a declared name but for case is this name. -/
def SpelledAsDeclared (ps : List (Value × Schema)) (key : Value) : Prop :=
  ∃ text, key.plain = .ok text ∧ ∀ p ∈ ps, ∀ name, p.1 = .str name →
    Text.toLower text = Text.toLower name → key = .str name

/-- The declared names of the object at the root, behind refinements and nullable wrappers, differ also
without regard to case. -/
def HeaderNamesDiffer : Schema → Prop
  | .refined _ _ base => base.HeaderNamesDiffer
  | .nullable _ inner => inner.HeaderNamesDiffer
  | .object _ _ ps => ∀ p ∈ ps, ∀ q ∈ ps, ∀ name name', p.1 = .str name → q.1 = .str name' →
      Text.toLower name = Text.toLower name' → name = name'
  | _ => True

/-- The keys of a value at the root are spelled as the object there declares them. -/
def HeadersSpelled : Schema → Value → Prop
  | .refined _ _ base, v => base.HeadersSpelled v
  | .nullable _ inner, v => inner.HeadersSpelled v
  | .object _ _ ps, v => ∀ entries, v = .dict entries → ∀ e ∈ entries, SpelledAsDeclared ps e.1
  | _, _ => True

theorem spelledAsDeclared_name {a : Annotations} {f : ObjectFields} {ps : List (Value × Schema)}
    (hnames : Names ps) (h : (Schema.object a f ps).HeaderNamesDiffer) {p : Value × Schema}
    (hp : p ∈ ps) : SpelledAsDeclared ps p.1 := by
  obtain ⟨name, hname⟩ := hnames.texts p hp
  rw [hname]
  refine ⟨name, rfl, fun q hq name' hname' hfolded => ?_⟩
  rw [h p hp q hq name name' hname hname' hfolded]

/-- Only a property whose key is a text has a folded name. -/
theorem foldedName_eq_ok {p : Value × Schema} {n : String × Value} :
    (match p.1 with
      | .str s => .ok (Text.toLower s, p.1)
      | _ => .error .noSuchMember : Except Fault (String × Value)) = .ok n ↔
      ∃ name, p.1 = .str name ∧ n = (Text.toLower name, .str name) := by
  obtain ⟨key, s⟩ := p
  cases key with
  | str name =>
      constructor
      · intro h
        exact ⟨name, rfl, (Except.ok.inj h).symm⟩
      · rintro ⟨_, ⟨⟩, rfl⟩
        rfl
  | _ => simp

theorem foldedNames_eq_ok {ps : List (Value × Schema)} {names : List (String × Value)}
    (h : foldedNames ps = .ok names) :
    ∀ n, n ∈ names ↔
      ∃ p ∈ ps, ∃ name, p.1 = .str name ∧ n = (Text.toLower name, .str name) := by
  obtain ⟨pairs, hpairs, h⟩ := bind_eq_ok_iff.mp h
  obtain rfl := Except.ok.inj h
  rw [mapM_eq_ok_iff] at hpairs
  intro n
  rw [List.mem_reverse]
  constructor
  · intro hn
    obtain ⟨p, hp, hpn⟩ := exists_left_of_forall₂ hpairs hn
    exact ⟨p, hp, foldedName_eq_ok.mp hpn⟩
  · rintro ⟨p, hp, name, hname, rfl⟩
    obtain ⟨n, hn, hpn⟩ := exists_right_of_forall₂ hpairs hp
    obtain ⟨name', hname', rfl⟩ := foldedName_eq_ok.mp hpn
    obtain rfl := Value.str.inj (hname.symm.trans hname')
    exact hn

/-- A declared name is found under its folded name. -/
theorem of_lookup_foldedNames {ps : List (Value × Schema)} {names : List (String × Value)}
    (h : foldedNames ps = .ok names) {folded : String} {key : Value}
    (hfound : names.lookup folded = some key) :
    ∃ p ∈ ps, ∃ name, p.1 = .str name ∧ folded = Text.toLower name ∧ key = .str name := by
  obtain ⟨p, hp, name, hname, heq⟩ := (foldedNames_eq_ok h _).mp (mem_of_lookup hfound)
  obtain ⟨rfl, rfl⟩ := Prod.mk.inj heq
  exact ⟨p, hp, name, hname, rfl, rfl⟩

theorem exists_foldedNames {ps : List (Value × Schema)} (hnames : Names ps) :
    ∃ names, foldedNames ps = .ok names := by
  obtain ⟨pairs, hpairs⟩ := exists_mapM_eq_ok fun p hp =>
    (hnames.texts p hp).elim fun name hname => ⟨_, foldedName_eq_ok.mpr ⟨name, hname, rfl⟩⟩
  exact ⟨pairs.reverse, bind_eq_ok_iff.mpr ⟨pairs, hpairs, rfl⟩⟩

/-- A header under the spelling that is declared, or under its own if none is. -/
theorem spelledAsDeclared_lookup {a : Annotations} {f : ObjectFields} {ps : List (Value × Schema)}
    (hnames : Names ps) (hdiffer : (Schema.object a f ps).HeaderNamesDiffer)
    {names : List (String × Value)} (h : foldedNames ps = .ok names) {key : Value} {text : String}
    (hkey : key.plain = .ok text) :
    SpelledAsDeclared ps ((names.lookup (Text.toLower text)).getD key) := by
  cases hfound : names.lookup (Text.toLower text) with
  | some key' =>
      obtain ⟨p, hp, name, hname, -, rfl⟩ := of_lookup_foldedNames h hfound
      have hspelled := spelledAsDeclared_name hnames hdiffer hp
      rwa [hname] at hspelled
  | none =>
      -- no declared name is the key but for case
      refine ⟨text, hkey, fun p hp name hname hfolded => ?_⟩
      have hmem := (foldedNames_eq_ok h _).mpr ⟨p, hp, name, hname, rfl⟩
      have hne := List.lookup_eq_none_iff.mp hfound _ hmem
      rw [hfolded, bne_self_eq_false] at hne
      cases hne

/-- Renamed headers are spelled as declared, and have the items that were there. -/
theorem of_renameHeaders {a : Annotations} {f : ObjectFields} {ps : List (Value × Schema)}
    (hnames : Names ps) (hdiffer : (Schema.object a f ps).HeaderNamesDiffer)
    {entries renamed : List (Value × Value)} (h : renameHeaders ps entries = .ok renamed)
    {Q : Value → Prop} (hentries : ∀ e ∈ entries, Q e.2) :
    Value.KeysDiffer renamed ∧ ∀ e ∈ renamed, SpelledAsDeclared ps e.1 ∧ Q e.2 := by
  obtain ⟨names, hfolded, h⟩ := bind_eq_ok_iff.mp h
  obtain ⟨pairs, hpairs, h⟩ := bind_eq_ok_iff.mp h
  obtain rfl := Except.ok.inj h
  refine ⟨Value.keysDiffer_ofEntries pairs, Value.forall_ofEntries fun e' he' => ?_⟩
  obtain ⟨e, he, hstep⟩ := exists_left_of_forall₂ (mapM_eq_ok_iff.mp hpairs) he'
  obtain ⟨text, htext, hstep⟩ := bind_eq_ok_iff.mp hstep
  obtain rfl := Except.ok.inj hstep
  exact ⟨spelledAsDeclared_lookup hnames hdiffer hfolded htext, hentries e he⟩

/-- Headers that are spelled as declared keep their names. -/
theorem renameHeaders_of_spelled {ps : List (Value × Schema)} (hnames : Names ps)
    {entries : List (Value × Value)} (hdiffer : Value.KeysDiffer entries)
    (h : ∀ e ∈ entries, SpelledAsDeclared ps e.1) : renameHeaders ps entries = .ok entries := by
  obtain ⟨names, hfolded⟩ := exists_foldedNames hnames
  refine bind_eq_ok_iff.mpr ⟨names, hfolded, bind_eq_ok_iff.mpr ⟨entries, ?_, ?_⟩⟩
  · rw [mapM_eq_ok_iff, List.forall₂_same]
    intro e he
    obtain ⟨text, htext, hspelled⟩ := h e he
    refine bind_eq_ok_iff.mpr ⟨text, htext, congrArg Except.ok (Prod.ext ?_ rfl)⟩
    cases hfound : names.lookup (Text.toLower text) with
    | none => rfl
    | some key =>
        obtain ⟨p, hp, name, hname, htext, rfl⟩ := of_lookup_foldedNames hfolded hfound
        exact (hspelled p hp name hname htext).symm
  · exact congrArg Except.ok (Value.ofEntries_of_keysDiffer hdiffer)

/-! ### The stages -/

theorem headersSpelled_of_no_dict {s : Schema} {v : Value} (h : ∀ entries, v ≠ .dict entries) :
    s.HeadersSpelled v := by
  induction s using Schema.induction with
  | object a f ps ih => exact fun entries heq => absurd heq (h entries)
  | nullable a inner ih => exact ih
  | refined a r base ih => exact ih
  | _ => trivial

/-- Cleaned headers are spelled as declared. -/
theorem headersSpelled_of_cleanHeaders {s : Schema} (hs : s.Named) (hdiffer : s.HeaderNamesDiffer)
    {v w : Value} (h : s.cleanHeaders v = .ok w) : s.HeadersSpelled w := by
  induction s using Schema.induction generalizing v w with
  | object a f ps ih =>
      cases v with
      | dict entries =>
          obtain ⟨renamed, hrenamed, h⟩ := bind_eq_ok_iff.mp h
          obtain rfl := Except.ok.inj h
          obtain ⟨-, hspelled⟩ := of_renameHeaders hs.names hdiffer hrenamed (Q := fun _ => True)
            fun _ _ => trivial
          rw [clean_dict]
          intro entries' heq e' he'
          obtain rfl := Value.dict.inj heq
          obtain ⟨e, he, hentry⟩ := List.mem_filterMap.mp he'
          rw [(of_cleanedEntry hentry).1]
          exact (hspelled e he).1
      | _ =>
          obtain rfl := Except.ok.inj h
          exact headersSpelled_of_no_dict (by simp)
  | nullable a inner ih =>
      cases v with
      | null =>
          obtain rfl := Except.ok.inj h
          exact headersSpelled_of_no_dict (by simp)
      | _ => exact ih hs.2 hdiffer h
  | refined a r base ih => exact ih hs.2 hdiffer h
  | _ => trivial

theorem wellFormed_cleanHeaders {s : Schema} (hs : s.Named) (hdiffer : s.HeaderNamesDiffer)
    {v w : Value} (h : s.cleanHeaders v = .ok w) (hv : v.WellFormed) : w.WellFormed := by
  induction s using Schema.induction generalizing v w with
  | object a f ps ih =>
      cases v with
      | dict entries =>
          obtain ⟨renamed, hrenamed, h⟩ := bind_eq_ok_iff.mp h
          obtain rfl := Except.ok.inj h
          obtain ⟨hkeys, hitems⟩ := of_renameHeaders hs.names hdiffer hrenamed
            (Value.wellFormed_dict.mp hv).2
          exact wellFormed_clean (Value.wellFormed_dict.mpr ⟨hkeys, fun e he => (hitems e he).2⟩)
      | _ =>
          obtain rfl := Except.ok.inj h
          exact hv
  | nullable a inner ih =>
      cases v with
      | null =>
          obtain rfl := Except.ok.inj h
          exact hv
      | _ => exact ih hs.2 hdiffer h hv
  | refined a r base ih => exact ih hs.2 hdiffer h hv
  | _ =>
      obtain rfl := Except.ok.inj h
      exact wellFormed_clean hv

@[simp] theorem cleanHeaders_null (s : Schema) : s.cleanHeaders .null = .ok .null := by
  induction s using Schema.induction with
  | refined a r base ih => exact ih
  | _ => rfl

theorem cleanHeaders_nullable (a : Annotations) (inner : Schema) (v : Value) :
    (Schema.nullable a inner).cleanHeaders v = inner.cleanHeaders v := by
  cases v with
  | null => exact (cleanHeaders_null inner).symm
  | _ => rfl

theorem cleanHeaders_absent (s : Schema) : s.cleanHeaders .absent = .ok .absent := by
  induction s using Schema.induction with
  | nullable a inner ih => exact ih
  | refined a r base ih => exact ih
  | _ => rfl

theorem eq_absent_of_cleanHeaders {s : Schema} {v : Value} (h : s.cleanHeaders v = .ok .absent) :
    v = .absent := by
  induction s using Schema.induction generalizing v with
  | object a f ps ih =>
      cases v with
      | dict entries =>
          obtain ⟨renamed, -, h⟩ := bind_eq_ok_iff.mp h
          cases h
      | _ => exact Except.ok.inj h
  | nullable a inner ih =>
      cases v with
      | null => cases h
      | _ => exact ih h
  | refined a r base ih => exact ih h
  | _ => exact eq_absent_of_clean (Except.ok.inj h)

/-- Filling adds declared names alone. -/
theorem headersSpelled_fill {s : Schema} (hs : s.Named) (hdiffer : s.HeaderNamesDiffer) {v : Value}
    (hv : v.isAbsent = false) (h : s.HeadersSpelled v) : s.HeadersSpelled (s.fill v) := by
  induction s using Schema.induction generalizing v with
  | object a f ps ih =>
      cases v with
      | dict entries =>
          intro entries' heq e' he'
          obtain rfl := Value.dict.inj heq
          rw [fillProperties_eq hs.names, List.mem_append] at he'
          rcases he' with he' | he'
          · obtain ⟨e, he, rfl⟩ := List.mem_map.mp he'
            exact h entries rfl e he
          · obtain ⟨p, hp, d, -, -, rfl⟩ := mem_missingEntries.mp he'
            exact spelledAsDeclared_name hs.names hdiffer hp
      | _ =>
          refine headersSpelled_of_no_dict ?_
          intro entries heq
          cases heq
  | nullable a inner ih =>
      by_cases hnull : v = .null
      · rw [hnull, fill_null]
        exact headersSpelled_of_no_dict (by simp)
      · rw [fill_nullable hnull, applyDefaults_of_isAbsent_eq_false inner hv]
        exact ih hs.2 hdiffer hv h
  | refined a r base ih => exact ih hs.2 hdiffer hv h
  | _ => trivial

/-- Filling takes no key away. -/
theorem headersSpelled_of_fill {s : Schema} (hs : s.Named) {v : Value} (hv : v.isAbsent = false)
    (h : s.HeadersSpelled (s.fill v)) : s.HeadersSpelled v := by
  induction s using Schema.induction generalizing v with
  | object a f ps ih =>
      rintro entries rfl e he
      refine h _ rfl (e.1, filledItem ps e) ?_
      rw [fillProperties_eq hs.names]
      exact List.mem_append_left _ (List.mem_map_of_mem he)
  | nullable a inner ih =>
      by_cases hnull : v = .null
      · rw [hnull]
        exact headersSpelled_of_no_dict (by simp)
      · rw [fill_nullable hnull, applyDefaults_of_isAbsent_eq_false inner hv] at h
        exact ih hs.2 hv h
  | refined a r base ih => exact ih hs.2 hv h
  | _ => trivial

/-- Headers that are absent are filled with a default, which has to be spelled as declared. -/
theorem headersSpelled_applyDefaults {s : Schema} (hs : s.Named) (hdefaults : s.Everywhere DefaultWellFormed)
    (hdiffer : s.HeaderNamesDiffer) {v : Value} (h : s.HeadersSpelled v)
    (hdefault : v.isAbsent = true → ∀ d, s.declaredDefault = some d → s.HeadersSpelled d) :
    s.HeadersSpelled (s.applyDefaults v) := by
  cases habsent : v.isAbsent with
  | false =>
      rw [applyDefaults_of_isAbsent_eq_false s habsent]
      exact headersSpelled_fill hs hdiffer habsent h
  | true =>
      obtain rfl := isAbsent_iff.mp habsent
      cases hd : s.declaredDefault with
      | none =>
          rw [applyDefaults, orDefault, hd]
          show s.HeadersSpelled (s.fill .absent)
          rw [fill_absent hd]
          exact h
      | some d =>
          rw [applyDefaults_absent hd]
          exact headersSpelled_fill hs hdiffer (wellFormed_declaredDefault hdefaults hd).1
            (hdefault habsent d hd)

/-- Conversion keeps the keys. -/
theorem headersSpelled_convert_iff {textual : Bool} {s : Schema} {v w : Value}
    (h : s.convert textual v = .ok w) : s.HeadersSpelled w ↔ s.HeadersSpelled v := by
  induction s using Schema.induction generalizing v w with
  | object a f ps ih =>
      cases v with
      | dict entries =>
          obtain ⟨converted, rfl, hconverted⟩ := convert_dict_eq_ok.mp h
          constructor
          · rintro hw _ ⟨⟩ e he
            obtain ⟨e', he', hkey, -⟩ := exists_right_of_forall₂ hconverted he
            rw [← hkey]
            exact hw converted rfl e' he'
          · rintro hv _ ⟨⟩ e' he'
            obtain ⟨e, he, hkey, -⟩ := exists_left_of_forall₂ hconverted he'
            rw [hkey]
            exact hv entries rfl e he
      | _ =>
          obtain rfl := Except.ok.inj h
          exact Iff.rfl
  | nullable a inner ih =>
      by_cases hnull : v = .null
      · rw [hnull, convert_null] at h
        rw [hnull, ← Except.ok.inj h]
      · rw [convert_nullable hnull] at h
        split_ifs at h with hreads
        · obtain rfl := Except.ok.inj h
          rw [eq_null_text_of_readsNull hreads]
          exact iff_of_true (headersSpelled_of_no_dict (by simp)) (headersSpelled_of_no_dict (by simp))
        · exact ih h
  | refined a r base ih => exact ih h
  | _ => exact Iff.rfl

/-- Cleaning headers that are spelled as declared is cleaning. -/
theorem cleanHeaders_of_spelled {s : Schema} (hs : s.Named) {v : Value} (hv : v.WellFormed)
    (h : s.HeadersSpelled v) : s.cleanHeaders v = .ok (s.clean v) := by
  induction s using Schema.induction generalizing v with
  | object a f ps ih =>
      cases v with
      | dict entries =>
          have hrename := renameHeaders_of_spelled hs.names (Value.wellFormed_dict.mp hv).1
            (h entries rfl)
          exact bind_eq_ok_iff.mpr ⟨entries, hrename, rfl⟩
      | _ => rfl
  | nullable a inner ih =>
      rw [clean_nullable]
      cases v with
      | null => exact congrArg Except.ok (clean_null inner).symm
      | _ => exact ih hs.2 hv h
  | refined a r base ih => exact ih hs.2 hv h
  | _ => rfl

end Schema

end ApiContract
