import ApiContract.Proofs.Passage
import ApiContract.Routing.Application

/-!
# Where a request goes

The paths of an application are tried in order, and the first one that fits together with its method takes the
request (`Application.select_eq_found_iff`). What comes of the request is then decided by its endpoint alone
(`Application.handle_of_route`, `Application.handle_of_documentation`).
-/

namespace ApiContract.Routing

/-- A path takes a request: it fits, and the method is one of its own. -/
def Mounted.Takes (m : Mounted) (method path : String) (params : List (Value × Value)) : Prop :=
  m.pattern.match? path = .ok (some params) ∧ method ∈ m.methods

/-- A path leaves a request to those behind it: it does not fit, or not with this method. -/
def Mounted.Leaves (m : Mounted) (method path : String) : Prop :=
  m.pattern.match? path = .ok none ∨
    method ∉ m.methods ∧ ∃ params, m.pattern.match? path = .ok (some params)

namespace Application

variable {app : Application} {method path : String} {params : List (Value × Value)}

theorem selectFrom_cons_of_leaves {m : Mounted} (h : m.Leaves method path) (fallback : Selection)
    (rest : List Mounted) : ∃ fallback', (fallback' = fallback ∨ fallback' = .wrongMethod) ∧
      selectFrom method path fallback (m :: rest) = selectFrom method path fallback' rest := by
  rcases h with hmatch | ⟨hmethod, params, hmatch⟩
  · refine ⟨fallback, .inl rfl, ?_⟩
    rw [selectFrom, hmatch]
    rfl
  · refine ⟨.wrongMethod, .inr rfl, ?_⟩
    rw [selectFrom, hmatch]
    show (if m.methods.contains method then _ else _) = _
    rw [if_neg (by simpa using hmethod)]

theorem selectFrom_eq_found_iff {ms : List Mounted} {m : Mounted} {fallback : Selection}
    (hfallback : ∀ m params, fallback ≠ .found m params) :
    selectFrom method path fallback ms = .ok (.found m params) ↔
      ∃ before after, ms = before ++ m :: after ∧ (∀ b ∈ before, b.Leaves method path) ∧
        m.Takes method path params := by
  constructor
  · intro h
    induction ms generalizing fallback with
    | nil => exact absurd (Except.ok.inj h) (hfallback m params)
    | cons b rest ih =>
        rw [selectFrom] at h
        obtain ⟨found, hmatch, h⟩ := bind_eq_ok_iff.mp h
        cases found with
        | none =>
            obtain ⟨before, after, rfl, hbefore, htakes⟩ := ih hfallback h
            exact ⟨b :: before, after, rfl, List.forall_mem_cons.mpr ⟨.inl hmatch, hbefore⟩, htakes⟩
        | some found =>
            dsimp only at h
            split_ifs at h with hmethod
            · obtain ⟨rfl, rfl⟩ := Selection.found.inj (Except.ok.inj h)
              exact ⟨[], rest, rfl, List.forall_mem_nil _, hmatch, by simpa using hmethod⟩
            · obtain ⟨before, after, rfl, hbefore, htakes⟩ := ih (fun _ _ => by simp) h
              refine ⟨b :: before, after, rfl, List.forall_mem_cons.mpr ⟨.inr ⟨?_, found, hmatch⟩, hbefore⟩, htakes⟩
              simpa using hmethod
  · rintro ⟨before, after, rfl, hbefore, hmatch, hmethod⟩
    clear hfallback
    induction before generalizing fallback with
    | nil =>
        rw [List.nil_append, selectFrom, hmatch]
        show (if m.methods.contains method then _ else _) = _
        rw [if_pos (by simpa using hmethod)]
        rfl
    | cons b before ih =>
        obtain ⟨hb, hbefore⟩ := List.forall_mem_cons.mp hbefore
        obtain ⟨fallback', -, hselect⟩ := selectFrom_cons_of_leaves hb fallback (before ++ m :: after)
        rw [List.cons_append, hselect]
        exact ih hbefore

/-- The first path that fits together with its method takes the request. -/
theorem select_eq_found_iff {m : Mounted} :
    app.select method path = .ok (.found m params) ↔
      ∃ before after, app.mounted = before ++ m :: after ∧ (∀ b ∈ before, b.Leaves method path) ∧
        m.Takes method path params :=
  selectFrom_eq_found_iff fun _ _ => by simp

/-! ### What comes of a request -/

/-- The exchange for the result of handling a request, and the context that it leaves. -/
def Exchange.of (run : Except Fault Http.Response × Context) : Exchange :=
  match run.1 with
  | .ok response => { response, notes := run.2.notes }
  | .error (.http status detail) => { response := .plain status detail, notes := run.2.notes }
  | .error f => { response := .plain 500 "Internal Server Error", fault := some f, notes := run.2.notes }

theorem handle_eq (app : Application) (request : Http.Request) :
    app.handle request = .of (runIn (app.respond request) { request, settings := app.settings }) := by
  have hrun : ((app.respond request).run.run { request, settings := app.settings }).run =
      runIn (app.respond request) { request, settings := app.settings } := rfl
  unfold handle
  rw [hrun]
  rcases runIn (app.respond request) { request, settings := app.settings } with ⟨f | response, c⟩
  · cases f <;> rfl
  · rfl

variable {request : Http.Request} {m : Mounted}

theorem respond_of_select (h : app.select request.method request.path = .ok (.found m params)) (c : Context) :
    runIn (app.respond request) c =
      match m.endpoint with
      | .documentation => (app.documentation, c)
      | .route route => runIn route.respond { c with params } := by
  have hselect : runIn (liftM (app.select request.method request.path) : Handling Selection) c =
      (.ok (.found m params), c) := by
    rw [runIn_lift, h]
  unfold respond
  rw [runIn_bind_ok hselect]
  dsimp only
  cases m.endpoint with
  | documentation => exact runIn_lift _ _
  | route route => exact runIn_bind_ok (runIn_modify _ c) _

/-- A route that takes a request answers it, with the parameters of the path. -/
theorem handle_of_route (h : app.select request.method request.path = .ok (.found m params)) {route : Route}
    (hroute : m.endpoint = .route route) :
    app.handle request = .of (runIn route.respond { request, params, settings := app.settings }) := by
  rw [handle_eq, respond_of_select h, hroute]

/-- Where the documentation takes a request, the document is the response. -/
theorem handle_of_documentation (h : app.select request.method request.path = .ok (.found m params))
    (hdocumentation : m.endpoint = .documentation) :
    app.handle request = .of (app.documentation, { request, settings := app.settings }) := by
  rw [handle_eq, respond_of_select h, hdocumentation]

end Application

end ApiContract.Routing
