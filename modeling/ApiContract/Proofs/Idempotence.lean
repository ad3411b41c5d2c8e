import ApiContract.Proofs.Acceptance
import ApiContract.Proofs.HeaderNames

/-!
# Normalizing what has been accepted

A value that has left the pipeline is a fixed point of cleaning, filling and conversion at once, so it
leaves the pipeline unchanged when it is sent through again (`Pipeline.apply_of_apply_iff`).

Filling is the stage to look at: conversion comes after it and may change what filling has seen. But
conversion keeps the keys of dictionaries, and the arrays that it makes hold single values
(`Schema.fill_of_convert`).
-/

namespace ApiContract

namespace Schema

variable {textual : Bool}

/-- What a conversion makes a satisfying value of was not absent. -/
theorem isAbsent_of_convert {s : Schema} {v w : Value} (hconvert : s.convert textual v = .ok w)
    (hsat : s.Satisfies w) : v.isAbsent = false := by
  rw [Bool.eq_false_iff]
  intro habsent
  rw [isAbsent_iff.mp habsent] at hconvert
  exact (not_satisfies_of_convert_absent hconvert).2 hsat

/-- Where nothing was to be filled before a conversion, nothing is to be filled after it. -/
theorem fill_of_convert {s : Schema} (h : s.Named) {v w : Value} (hfilled : s.applyDefaults v = v)
    (hconvert : s.convert textual v = .ok w) (hsat : s.Satisfies w) (hw : w.WellFormed) :
    s.fill w = w := by
  induction s using Schema.induction generalizing v w with
  | array a f items ih =>
      have hv := isAbsent_of_convert hconvert hsat
      rw [applyDefaults_of_isAbsent_eq_false _ hv] at hfilled
      obtain ⟨zs, hzs, -, hitems⟩ := hsat
      -- an item of the result comes from a value that was not to be filled
      have hitem {x y : Value} (hx : items.applyDefaults x = x)
          (hxy : items.convert textual x = .ok y) (hy : y ∈ zs) : items.applyDefaults y = y := by
        rw [applyDefaults_of_satisfies (hitems y hy)]
        exact ih h.2 hx hxy (hitems y hy) (hw.items hzs y hy)
      cases hxs : v.items? with
      | some xs =>
          obtain ⟨ys, rfl, hys⟩ := (convert_items_eq_ok hxs).mp hconvert
          obtain rfl := Option.some.inj hzs
          rw [fill_array_of_items hxs] at hfilled
          rw [← hfilled] at hxs
          have hmap : xs.map items.applyDefaults = xs.map id := by
            rw [List.map_id]
            exact Option.some.inj hxs
          have hfixed : ∀ y ∈ ys, items.applyDefaults y = id y := by
            intro y hy
            obtain ⟨x, hx, hxy⟩ := exists_left_of_forall₂ hys hy
            exact hitem (List.map_inj_left.mp hmap x hx) hxy hy
          rw [fill_array_of_items rfl, List.map_congr_left hfixed, List.map_id]
      | none =>
          cases halone : textual && standsAlone v with
          | true =>
              obtain ⟨y, rfl, hy⟩ := (convert_single_eq_ok hxs halone).mp hconvert
              obtain rfl := Option.some.inj hzs
              -- a value that stands for an array is neither a list nor a dictionary
              have hscalar : items.applyDefaults v = v := by
                rw [applyDefaults_of_isAbsent_eq_false items hv]
                refine fill_of_scalar items hv hxs ?_
                rintro entries rfl
                simp [standsAlone] at halone
              rw [fill_array_of_items rfl, List.map_singleton, hitem hscalar hy List.mem_cons_self]
          | false =>
              rw [convert_array_of_other hxs halone] at hconvert
              rw [← Except.ok.inj hconvert]
              exact hfilled
  | object a f ps ih =>
      have hv := isAbsent_of_convert hconvert hsat
      rw [applyDefaults_of_isAbsent_eq_false _ hv] at hfilled
      cases v with
      | dict entries =>
          obtain ⟨converted, rfl, hconverted⟩ := convert_dict_eq_ok.mp hconvert
          obtain ⟨_, ⟨⟩, -, hprops, -⟩ := hsat
          obtain ⟨hdiffer, hvalues⟩ := Value.wellFormed_dict.mp hw
          have hsame : fillProperties ps entries = entries := Value.dict.inj hfilled
          -- conversion keeps the keys, so a default that is missing now was missing before
          have hmissing : missingEntries ps converted = [] :=
            missingEntries_eq_nil h.names (hconverted.keys.trans (congrArg (List.map (·.1)) hsame.symm))
          have hfixed : ∀ e ∈ converted, (e.1, filledItem ps e) = id e := by
            intro e he
            refine Prod.ext rfl ?_
            cases hs : property? e.1 ps with
            | none => rw [filledItem, hs]; rfl
            | some s =>
                obtain ⟨e₀, he₀, hkey, hitem⟩ := exists_left_of_forall₂ hconverted he
                have hmem := mem_of_property? h.names hs
                have hsat' := satisfies_item h.names hdiffer hprops he hs
                have hbefore := filledItem_of_fillProperties h.names hsame e₀ he₀
                rw [convertProperty_eq, ← hkey, hs] at hitem
                rw [filledItem, ← hkey, hs] at hbefore
                rw [filledItem, hs]
                show s.applyDefaults e.2 = e.2
                rw [applyDefaults_of_satisfies hsat']
                exact ih _ hmem (h.property hmem) hbefore hitem hsat' (hvalues e he)
          show Value.dict (fillProperties ps converted) = .dict converted
          rw [fillProperties_eq h.names, hmissing, List.append_nil, List.map_congr_left hfixed,
            List.map_id]
      | _ =>
          obtain rfl := Except.ok.inj hconvert
          rfl
  | nullable a inner ih =>
      have hv := isAbsent_of_convert hconvert hsat
      by_cases hnull : w = .null
      · rw [hnull, fill_null]
      · -- null stays null, so a result that is not null comes through the inner schema
        have hne : v ≠ .null := by
          rintro rfl
          rw [convert_null] at hconvert
          exact hnull (Except.ok.inj hconvert).symm
        rw [applyDefaults_of_isAbsent_eq_false _ hv, fill_nullable hne] at hfilled
        rw [convert_nullable hne] at hconvert
        split_ifs at hconvert
        · exact absurd (Except.ok.inj hconvert).symm hnull
        · rcases hsat with hsat | hsat
          · exact absurd hsat hnull
          · rw [fill_nullable hnull, applyDefaults_of_satisfies hsat]
            exact ih h.2 hfilled hconvert hsat hw
  | refined a r base ih =>
      have hv := isAbsent_of_convert hconvert hsat
      rw [applyDefaults_of_isAbsent_eq_false _ hv] at hfilled
      refine ih h.2 ?_ hconvert hsat.1 hw
      rw [applyDefaults_of_isAbsent_eq_false base hv]
      exact hfilled
  | _ => rfl

end Schema

namespace Pipeline

open Schema

theorem wellFormed_nullIfAbsent {v : Value} (h : v.WellFormed) : (nullIfAbsent v).WellFormed := by
  unfold nullIfAbsent
  split
  · trivial
  · exact h

theorem headersSpelled_nullIfAbsent {s : Schema} {v : Value} (h : s.HeadersSpelled v) :
    s.HeadersSpelled (nullIfAbsent v) := by
  unfold nullIfAbsent
  split
  · exact headersSpelled_of_no_dict (by simp)
  · exact h

/-- Nothing is to be filled in the value that filling hands on. -/
theorem applyDefaults_nullIfAbsent {s : Schema} (h : s.Named) (v : Value) :
    s.applyDefaults (nullIfAbsent (s.applyDefaults v)) = nullIfAbsent (s.applyDefaults v) := by
  unfold nullIfAbsent
  split
  · rw [applyDefaults_of_isAbsent_eq_false s rfl, fill_null]
  · exact applyDefaults_applyDefaults h v

theorem wellFormed_cleanFor {s : Schema} (hs : s.Named) {t : Target}
    (hdiffer : t = .header → s.HeaderNamesDiffer) {v w : Value}
    (h : s.cleanFor (some t) v = .ok w) (hv : v.WellFormed) : w.WellFormed := by
  unfold cleanFor at h
  split_ifs at h with ht
  · exact wellFormed_cleanHeaders hs (hdiffer (by simpa using ht)) h hv
  · rw [← Except.ok.inj h]
    exact wellFormed_clean hv

/-- Headers that were there, or are filled in with declared spelling, are accepted with declared
spelling. -/
theorem headersSpelled_of_apply {p : Pipeline} {raw data : Value} (hs : p.schema.WellFormed)
    (hnamed : p.schema.Named) (hdiffer : p.schema.HeaderNamesDiffer)
    (h : p.apply .header raw = .ok (.success data))
    (hdefault : raw.isAbsent = true → ∀ d, p.schema.declaredDefault = some d →
      p.schema.HeadersSpelled d) : p.schema.HeadersSpelled data := by
  obtain ⟨cleaned, hclean, hconvert, -⟩ := apply_eq_success_iff.mp h
  refine (headersSpelled_convert_iff hconvert).mpr (headersSpelled_nullIfAbsent ?_)
  refine headersSpelled_applyDefaults hnamed hs.defaults hdiffer
    (headersSpelled_of_cleanHeaders hnamed hdiffer hclean) fun hcleaned => hdefault ?_
  rw [isAbsent_iff.mp hcleaned] at hclean
  rw [eq_absent_of_cleanHeaders hclean]
  rfl

/-- Headers that are filled in as a whole are accepted with the spelling of the default. -/
theorem headersSpelled_default {p : Pipeline} {data d : Value} (hs : p.schema.WellFormed)
    (hnamed : p.schema.Named) (h : p.apply .header .absent = .ok (.success data))
    (hd : p.schema.declaredDefault = some d) (hspelled : p.schema.HeadersSpelled data) :
    p.schema.HeadersSpelled d := by
  have hpresent := (wellFormed_declaredDefault hs.defaults hd).1
  obtain ⟨cleaned, hclean, hconvert, -⟩ := apply_eq_success_iff.mp h
  obtain rfl : .absent = cleaned := Except.ok.inj ((cleanHeaders_absent p.schema).symm.trans hclean)
  have hfilled : (p.schema.fill d).isAbsent = false := by
    rw [Bool.eq_false_iff]
    intro habsent
    rw [eq_absent_of_fill (isAbsent_iff.mp habsent)] at hpresent
    cases hpresent
  rw [headersSpelled_convert_iff hconvert, applyDefaults_absent hd, nullIfAbsent, hfilled] at hspelled
  exact headersSpelled_of_fill hnamed hpresent hspelled

/-- A value that is accepted is a fixed point of the stages before the check, if cleaning leaves it as
it is. -/
theorem apply_of_clean {p : Pipeline} {t : Target} {raw data : Value}
    (hnamed : p.schema.Named) (hsat : p.schema.Satisfies data) (hdata : data.WellFormed)
    (h : p.apply t raw = .ok (.success data))
    (hclean : p.schema.cleanFor (some t) data = .ok data) :
    p.apply t data = .ok (.success data) := by
  obtain ⟨cleaned, -, hconvert, htrace⟩ := apply_eq_success_iff.mp h
  refine apply_eq_success_iff.mpr ⟨data, hclean, ?_, htrace⟩
  have hfill : p.schema.applyDefaults data = data := by
    rw [applyDefaults_of_satisfies hsat]
    exact fill_of_convert hnamed (applyDefaults_nullIfAbsent hnamed cleaned) hconvert hsat hdata
  rw [hfill, nullIfAbsent, isAbsent_of_satisfies hsat]
  exact convert_convert hconvert

/-- Accepted values are well formed. -/
theorem wellFormed_of_apply {p : Pipeline} {t : Target} {raw data : Value} (hs : p.schema.WellFormed)
    (hnamed : p.schema.Named) (hdiffer : t = .header → p.schema.HeaderNamesDiffer)
    (hraw : raw.WellFormed) (h : p.apply t raw = .ok (.success data)) : data.WellFormed := by
  obtain ⟨cleaned, hclean, hconvert, -⟩ := apply_eq_success_iff.mp h
  have hcleaned := wellFormed_cleanFor hnamed hdiffer hclean hraw
  exact wellFormed_convert hconvert (wellFormed_nullIfAbsent
    (wellFormed_fill hnamed hs.defaults (wellFormed_orDefault hs.defaults hcleaned)))

/-- **Normalization is idempotent.** A value that has left the pipeline leaves it unchanged when it is
sent through again. The one exception are headers that are filled in as a whole from a default that does
not spell them as declared; the names of headers have to differ without regard to case. -/
theorem apply_of_apply_iff {s : Schema} {p : Pipeline} {t : Target} {raw data : Value}
    (hp : ofSchema s = .ok p) (hs : s.WellFormed) (hraw : raw.WellFormed)
    (hdiffer : t = .header → s.HeaderNamesDiffer) (h : p.apply t raw = .ok (.success data)) :
    p.apply t data = .ok (.success data) ↔
      (t = .header → raw = .absent → ∀ d, s.declaredDefault = some d → s.HeadersSpelled d) := by
  obtain ⟨rfl, hcompile⟩ := ofSchema_eq_ok hp
  have hnamed := named_of_compileAt hcompile hs.declaresOnce
  obtain ⟨cleaned, hclean, hconvert, htrace⟩ := apply_eq_success_iff.mp h
  have hsat := (isClean_run_iff hcompile data "").mp htrace
  have hdata := wellFormed_of_apply hs hnamed hdiffer hraw h
  have hclean' : p.schema.clean data = data :=
    clean_of_satisfies hnamed hsat (convert_convert hconvert) hdata
  constructor
  · -- what the second run accepts is spelled as declared, and its names are those of the default
    rintro hagain rfl rfl d hd
    refine headersSpelled_default hs hnamed h hd ?_
    refine headersSpelled_of_apply hs hnamed (hdiffer rfl) hagain fun habsent => ?_
    rw [isAbsent_of_satisfies hsat] at habsent
    cases habsent
  · intro hdefault
    refine apply_of_clean hnamed hsat hdata h ?_
    by_cases ht : t = .header
    · -- the names of headers are matched again, and match
      subst ht
      have hspelled := headersSpelled_of_apply hs hnamed (hdiffer rfl) h fun habsent =>
        hdefault rfl (isAbsent_iff.mp habsent)
      show p.schema.cleanHeaders data = .ok data
      rw [cleanHeaders_of_spelled hnamed hdata hspelled, hclean']
    · have hbeq : (some t == some Target.header) = false := by simpa using ht
      rw [cleanFor, hbeq, hclean']
      rfl

/-- Headers with a default, and with an array whose items may be null. -/
def paged : Schema :=
  .object {} { required := some [] } [
    (.str "X-Limit", .integer { default := some (.int 10) } {}),
    (.str "X-Tags", .array {} {} (.nullable {} (.integer {} {})))]

theorem wellFormed_paged : paged.WellFormed where
  declaresOnce := by
    refine ⟨.cons ?_ (List.pairwise_singleton _ _), trivial, ⟨trivial, trivial, trivial⟩, trivial⟩
    intro p hp
    obtain rfl := List.mem_singleton.mp hp
    rfl
  defaults := by
    have hnone {s : Schema} : s.default? = none → s.DefaultWellFormed := DefaultWellFormed.of_none
    refine ⟨hnone rfl, ?_, ⟨hnone rfl, hnone rfl, hnone rfl⟩, trivial⟩
    rintro d ⟨⟩
    exact ⟨rfl, trivial⟩

/-- A header that reads `null` is accepted as an array of null, beside a header that was not there; both
are accepted again. -/
theorem apply_paged :
    ∃ p, ofSchema paged = .ok p ∧ paged.WellFormed ∧ paged.HeaderNamesDiffer ∧
      p.apply .header (.record [("x-tags", .str "null")]) =
        .ok (.success (.record [("X-Tags", .list [.null]), ("X-Limit", .int 10)])) ∧
      p.apply .header (.record [("X-Tags", .list [.null]), ("X-Limit", .int 10)]) =
        .ok (.success (.record [("X-Tags", .list [.null]), ("X-Limit", .int 10)])) := by
  have hraw : (Value.record [("x-tags", .str "null")]).WellFormed :=
    ⟨List.pairwise_singleton _ _, trivial, trivial⟩
  have hdiffer : paged.HeaderNamesDiffer := by
    have hnames : Text.toLower "X-Limit" ≠ Text.toLower "X-Tags" := by decide +kernel
    intro p hp q hq name name' hname hname' hfolded
    rcases List.mem_pair.mp hp with rfl | rfl <;> rcases List.mem_pair.mp hq with rfl | rfl <;>
      cases hname <;> cases hname'
    · rfl
    · exact absurd hfolded hnames
    · exact absurd hfolded.symm hnames
    · rfl
  obtain ⟨p, hp, happly⟩ : ∃ p, ofSchema paged = .ok p ∧
      p.apply .header (.record [("x-tags", .str "null")]) =
        .ok (.success (.record [("X-Tags", .list [.null]), ("X-Limit", .int 10)])) := ⟨_, rfl, rfl⟩
  refine ⟨p, hp, wellFormed_paged, hdiffer, happly,
    (apply_of_apply_iff hp wellFormed_paged hraw (fun _ => hdiffer) happly).mpr ?_⟩
  intro _ hraw'
  cases hraw'

/-- An object that admits any headers, and one under a default that does not spell it as declared. -/
def lenient : Schema :=
  .object { default := some (.record [("x-id", .str "1")]) } { required := some [], additional := true }
    [(.str "X-Id", .string {} {})]

theorem wellFormed_lenient : lenient.WellFormed where
  declaresOnce := ⟨List.pairwise_singleton _ _, trivial, trivial⟩
  defaults := by
    refine ⟨?_, DefaultWellFormed.of_none rfl, trivial⟩
    rintro d ⟨⟩
    exact ⟨rfl, List.pairwise_singleton _ _, trivial, trivial⟩

theorem headerNamesDiffer_lenient : lenient.HeaderNamesDiffer := by
  intro p hp q hq name name' hname hname' _
  obtain rfl := List.mem_singleton.mp hp
  obtain rfl := List.mem_singleton.mp hq
  exact Value.str.inj (hname.symm.trans hname')

/-- Where headers are filled in as a whole, a second run renames what the first one has left. -/
theorem not_apply_of_apply :
    ¬ ∀ (s : Schema) (p : Pipeline) (t : Target) (raw data : Value), ofSchema s = .ok p →
      s.WellFormed → raw.WellFormed → (t = .header → s.HeaderNamesDiffer) →
      p.apply t raw = .ok (.success data) → p.apply t data = .ok (.success data) := by
  intro hall
  have hagain := hall lenient _ .header .absent (.record [("x-id", .str "1")]) rfl wellFormed_lenient
    trivial (fun _ => headerNamesDiffer_lenient) rfl
  have hrenamed : Pipeline.apply ⟨lenient, .object ⟨[], true⟩
      [("X-Id", .string ⟨none, none, none, none, none⟩)]⟩ .header (.record [("x-id", .str "1")]) =
      .ok (.success (.record [("X-Id", .str "1")])) := rfl
  have hsame := hrenamed.symm.trans hagain
  simp [Value.record] at hsame

end Pipeline

end ApiContract
