import ModuleLoader.Settings
/-!
# What a refused change of settings leaves behind

Single keys are set and lists of variables are loaded, in any order, on settings that may be used.
A bad limit is found before anything is stored, so a key refused for it leaves the settings as they
were. Loading gives variables one after another and stops at the first refused one: those before it
stay. An empty default export is the one value that is stored first and refused afterwards, so
nothing is said here of what follows such an answer.
-/

namespace ModuleLoader
set_option autoImplicit false

namespace Settings

/-- A call that changes settings. -/
inductive Update where
  /-- One dashed key is set. -/
  | set (key value : String)
  /-- Variables of the surroundings are loaded, in the order in which they are listed. -/
  | load (listed : List (String × String))

/-- The settings after a call, and its answer. -/
def update (settings : Settings) : Update → Settings × Except Fault Unit
  | .set key value => settings.set key value
  | .load listed => settings.setAll listed

/-- The settings after calls made one after another, refused ones included. -/
def updateAll (settings : Settings) (calls : List Update) : Settings :=
  calls.foldl (fun settings call => (settings.update call).1) settings

/-- The answers to calls made one after another. -/
def answers (settings : Settings) : List Update → List (Except Fault Unit)
  | [] => []
  | call :: calls => (settings.update call).2 :: (settings.update call).1.answers calls

theorem validate_eq_ok {settings : Settings} :
    settings.validate = .ok () ↔ settings.defaultExport ≠ "" := by
  unfold validate
  split <;> simp_all

theorem validate_ne_ok {settings : Settings} (emptied : settings.defaultExport = "") :
    settings.validate = .error .emptyDefaultExport := by
  rw [validate, if_pos emptied]

/-- All that setting one key can do to settings that may be used: it is done, it is refused with
nothing changed, or the value was an empty default export. -/
theorem set_of_valid {settings : Settings} (valid : settings.validate = .ok ())
    (key value : String) :
    ((settings.set key value).2 = .ok () ∧ (settings.set key value).1.validate = .ok ()) ∨
    (∃ text, settings.set key value = (settings, .error (.badLimit text))) ∨
    (key = "default-export" ∧ value = "" ∧
      (settings.set key value).2 = .error .emptyDefaultExport) := by
  by_cases isName : key = "name"
  · have stored : settings.set key value =
        ({ settings with name := value }, settings.validate) := by
      simp [set, store, isName, validate]
    exact .inl ⟨by rw [stored]; exact valid, by rw [stored]; exact valid⟩
  by_cases isExport : key = "default-export"
  · have stored : settings.set key value = ({ settings with defaultExport := value },
        ({ settings with defaultExport := value } : Settings).validate) := by
      simp [set, store, isExport]
    by_cases emptied : value = ""
    · exact .inr (.inr ⟨isExport, emptied, by rw [stored]; exact validate_ne_ok emptied⟩)
    · have kept : ({ settings with defaultExport := value } : Settings).validate = .ok () :=
        validate_eq_ok.2 emptied
      exact .inl ⟨by rw [stored]; exact kept, by rw [stored]; exact kept⟩
  by_cases isLimit : key = "max-concurrent-loads"
  · cases found : readLimit value.toList with
    | none => exact .inr (.inl ⟨value, by simp [set, store, isLimit, found]⟩)
    | some limit =>
      have stored : settings.set key value =
          ({ settings with maxConcurrentLoads := limit }, settings.validate) := by
        simp [set, store, isLimit, found, validate]
      exact .inl ⟨by rw [stored]; exact valid, by rw [stored]; exact valid⟩
  · have ignored : settings.set key value = (settings, .ok ()) := by
      simp [set, store, isName, isExport, isLimit]
    exact .inl ⟨by rw [ignored], by rw [ignored]; exact valid⟩

theorem setAll_cons_none (settings : Settings) {variableName : String} (value : String)
    (rest : List (String × String)) (foreign : keyOfVariable variableName = none) :
    settings.setAll ((variableName, value) :: rest) = settings.setAll rest := by
  simp [setAll, foreign]

theorem setAll_cons_ok {settings changed : Settings} {variableName key value : String}
    (rest : List (String × String)) (named : keyOfVariable variableName = some key)
    (taken : settings.set key value = (changed, .ok ())) :
    settings.setAll ((variableName, value) :: rest) = changed.setAll rest := by
  simp [setAll, named, taken]

theorem setAll_cons_error {settings changed : Settings} {variableName key value : String}
    {fault : Fault} (rest : List (String × String)) (named : keyOfVariable variableName = some key)
    (refused : settings.set key value = (changed, .error fault)) :
    settings.setAll ((variableName, value) :: rest) = (changed, .error fault) := by
  simp [setAll, named, refused]

/-- Loading stops at a refused variable: those before it are taken and lead to `reached`, which the
refused one leaves as it is. -/
def StopsAt (settings : Settings) (listed : List (String × String)) (reached : Settings)
    (fault : Fault) : Prop :=
  ∃ taken variableName value rest key,
    listed = taken ++ (variableName, value) :: rest ∧
    settings.setAll taken = (reached, .ok ()) ∧
    keyOfVariable variableName = some key ∧
    reached.set key value = (reached, .error fault)

/-- One of the variables is an empty default export. -/
def OffersEmpty (listed : List (String × String)) : Prop :=
  ∃ variableName, keyOfVariable variableName = some "default-export" ∧ (variableName, "") ∈ listed

/-- All that loading variables can do to settings that may be used. -/
inductive Loading (settings : Settings) (listed : List (String × String)) : Prop where
  /-- Every variable is taken. -/
  | taken (done : (settings.setAll listed).2 = .ok ())
      (kept : (settings.setAll listed).1.validate = .ok ())
  /-- A variable is refused for a bad limit. -/
  | stopped (reached : Settings) (text : String)
      (stops : settings.StopsAt listed reached (.badLimit text)) (kept : reached.validate = .ok ())
      (ended : settings.setAll listed = (reached, .error (.badLimit text)))
  /-- A variable is refused for an empty default export. -/
  | emptied (offers : OffersEmpty listed)
      (ended : (settings.setAll listed).2 = .error .emptyDefaultExport)

/-- What loading does after the first variable, it does with the first variable in front. -/
theorem Loading.cons {settings changed : Settings} {listed : List (String × String)}
    {head : String × String} (loading : changed.Loading listed)
    (first : ∀ others, settings.setAll (head :: others) = changed.setAll others) :
    settings.Loading (head :: listed) := by
  cases loading with
  | taken done kept => exact .taken (by rw [first, done]) (by rw [first, kept])
  | stopped reached text stops kept ended =>
    obtain ⟨before, variableName, value, rest, key, rfl, all, named, refused⟩ := stops
    exact .stopped reached text
      ⟨head :: before, variableName, value, rest, key, rfl, by rw [first, all], named, refused⟩ kept
      (by rw [first, ended])
  | emptied offers ended =>
    obtain ⟨variableName, named, inside⟩ := offers
    exact .emptied ⟨variableName, named, List.mem_cons_of_mem _ inside⟩ (by rw [first, ended])

theorem setAll_of_valid (listed : List (String × String)) {settings : Settings}
    (valid : settings.validate = .ok ()) : settings.Loading listed := by
  -- The settings change with each variable taken, so the induction is over all that may be used.
  induction listed generalizing settings with
  | nil => exact .taken rfl valid
  | cons head rest ih =>
    obtain ⟨variableName, value⟩ := head
    cases named : keyOfVariable variableName with
    | none => exact (ih valid).cons fun others => setAll_cons_none settings value others named
    | some key =>
      rcases set_of_valid valid key value with ⟨done, kept⟩ | ⟨text, refused⟩ | ⟨rfl, rfl, emptied⟩
      · exact (ih kept).cons fun others => setAll_cons_ok others named (Prod.ext rfl done)
      · exact .stopped settings text ⟨[], variableName, value, rest, key, rfl, rfl, named, refused⟩
          valid (setAll_cons_error rest named refused)
      · exact .emptied ⟨variableName, named, List.mem_cons_self⟩
          (by rw [setAll_cons_error rest named (Prod.ext rfl emptied)])

/-- One call keeps settings fit for use, unless it is refused for an empty default export. -/
theorem update_validate {settings : Settings} (valid : settings.validate = .ok ()) (call : Update)
    (proper : (settings.update call).2 ≠ .error .emptyDefaultExport) :
    (settings.update call).1.validate = .ok () := by
  cases call with
  | set key value =>
    rcases set_of_valid valid key value with ⟨-, kept⟩ | ⟨text, refused⟩ | ⟨-, -, emptied⟩
    · exact kept
    · rw [update, refused]; exact valid
    · exact absurd emptied proper
  | load listed =>
    cases setAll_of_valid listed valid with
    | taken _ kept => exact kept
    | stopped reached text _ kept ended => rw [update, ended]; exact kept
    | emptied _ ended => exact absurd ended proper

/-- Calls one after another keep settings fit for use, as long as none is refused for an empty
default export. -/
theorem updateAll_validate (calls : List Update) {settings : Settings}
    (valid : settings.validate = .ok ())
    (proper : .error .emptyDefaultExport ∉ settings.answers calls) :
    (settings.updateAll calls).validate = .ok () := by
  induction calls generalizing settings with
  | nil => exact valid
  | cons call calls ih =>
    rw [answers, List.mem_cons, not_or] at proper
    exact ih (update_validate valid call (Ne.symm proper.1)) proper.2

/-- Settings fit for use stay so through any calls none of which is refused for an empty default
export. Where they have got to, a refused key changes nothing, and refused variables leave exactly
what the ones before the first refused one gave. Only an empty default export is refused as one. -/
theorem updateAll_refused (settings : Settings) (valid : settings.validate = .ok ())
    (calls : List Update) (proper : .error .emptyDefaultExport ∉ settings.answers calls) :
    (settings.updateAll calls).validate = .ok () ∧
    (∀ key value changed fault,
      (settings.updateAll calls).set key value = (changed, .error fault) →
      (fault = .emptyDefaultExport ∧ key = "default-export" ∧ value = "") ∨
      changed = settings.updateAll calls) ∧
    (∀ listed changed fault,
      (settings.updateAll calls).setAll listed = (changed, .error fault) →
      (fault = .emptyDefaultExport ∧ OffersEmpty listed) ∨
      (settings.updateAll calls).StopsAt listed changed fault) := by
  have reached := updateAll_validate calls valid proper
  refine ⟨reached, fun key value changed fault refused => ?_,
    fun listed changed fault refused => ?_⟩
  · rcases set_of_valid reached key value with ⟨done, -⟩ | ⟨text, kept⟩ | ⟨isExport, none, emptied⟩
    · rw [refused] at done; cases done
    · rw [refused] at kept; cases kept; exact .inr rfl
    · rw [refused] at emptied; cases emptied; exact .inl ⟨rfl, isExport, none⟩
  · cases setAll_of_valid listed reached with
    | taken done _ => rw [refused] at done; cases done
    | stopped stopped text stops _ ended => rw [refused] at ended; cases ended; exact .inr stops
    | emptied offers ended => rw [refused] at ended; cases ended; exact .inl ⟨rfl, offers⟩

/-- A bad limit refused after a name was taken leaves the name, whether earlier calls were refused
or not. -/
theorem updateAll_refused_limit :
    let calls : List Update :=
      [.set "max-concurrent-loads" "many", .load [("HOME", "/"), ("COMPARTMENT_NAME", "a")]]
    let reached : Settings := (default : Settings).updateAll calls
    reached.validate = .ok () ∧ reached = named "a" ∧
      reached.StopsAt [("COMPARTMENT_NAME", "b"), ("COMPARTMENT_MAX_CONCURRENT_LOADS", "many"),
        ("COMPARTMENT_NAME", "c")] (named "b") (.badLimit "many") := by
  intro calls reached
  have answered : (default : Settings).answers calls = [.error (.badLimit "many"), .ok ()] := rfl
  obtain ⟨valid, -, loads⟩ := updateAll_refused (default : Settings) rfl calls
    (by rw [answered]; simp)
  exact ⟨valid, rfl, (loads _ _ _ rfl).resolve_left fun emptied => Fault.noConfusion emptied.1⟩

/-- Loading is not all or nothing: the name stays although the limit after it is refused. -/
theorem not_update_atomic :
    ¬ ∀ settings : Settings, settings.validate = .ok () → ∀ calls call fault,
      ((settings.updateAll calls).update call).2 = .error fault →
      ((settings.updateAll calls).update call).1 = settings.updateAll calls := by
  intro atomic
  have unchanged : named "b" = default := atomic default rfl []
    (.load [("COMPARTMENT_NAME", "b"), ("COMPARTMENT_MAX_CONCURRENT_LOADS", "many")]) _ rfl
  exact absurd (congrArg Settings.name unchanged) (by decide)

end Settings

end ModuleLoader
