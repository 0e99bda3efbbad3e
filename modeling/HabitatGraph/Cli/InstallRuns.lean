import HabitatGraph.Cli.Install
import HabitatGraph.Serve.LoadRoundTrip

/-! # Installations that may be cut

What a config holds besides the registered servers outlives every sequence of
installations. A run may be cut at any of its calls and a write may leave a part of
its text: the config of a command that renames stays whole, that of a command that
writes in place stays whole as long as its writes do. Sidecars are what the commands
write over, so none of this holds of them; nor does it of a config that is not found
although it is there, which counts as an empty one.
-/

namespace HabitatGraph

open Program Files Utf8Lines

/-! ## Merging -/

theorem lookup_putField_self (key : String) (value : JsonValue)
    (fields : List (String × JsonValue)) : (putField key value fields).lookup key = some value := by
  induction fields with
  | nil => simp [putField]
  | cons field fields ih =>
      obtain ⟨k, v⟩ := field
      rw [putField]
      split
      next hk => simp [hk]
      next hk =>
        split
        next => simp
        next =>
          rw [List.lookup_cons, beq_false_of_ne (Ne.symm hk)]
          exact ih

theorem lookup_putField_of_ne {key other : String} (h : other ≠ key) (value : JsonValue)
    (fields : List (String × JsonValue)) :
    (putField key value fields).lookup other = fields.lookup other := by
  induction fields with
  | nil => simp [putField, List.lookup_cons, beq_false_of_ne h]
  | cons field fields ih =>
      obtain ⟨k, v⟩ := field
      rw [putField]
      split
      next hk =>
        subst hk
        simp [List.lookup_cons, beq_false_of_ne h]
      next =>
        split
        next => rw [List.lookup_cons, beq_false_of_ne h]
        next => rw [List.lookup_cons, List.lookup_cons, ih]

theorem get_eq_lookup_fieldsOf (key : String) (value : JsonValue) :
    value.get key = (fieldsOf value).lookup key := by
  cases value <;> rfl

theorem fieldsOf_mergeEntry (existing : JsonValue) (name : String) (entry : JsonValue) :
    fieldsOf (mergeEntry existing name entry) = putField "mcpServers"
      (.object (putField name entry (fieldsOf ((existing.get "mcpServers").getD (.object [])))))
      (fieldsOf existing) := by
  rw [get_eq_lookup_fieldsOf]
  rfl

theorem serverOf_eq_lookup (config : JsonValue) (name : String) :
    serverOf config name =
      (fieldsOf ((config.get "mcpServers").getD (.object []))).lookup name := by
  rw [serverOf]
  cases config.get "mcpServers" with
  | none => rfl
  | some servers => exact get_eq_lookup_fieldsOf name servers

/-- Other keys of the config are left alone. -/
theorem get_mergeEntry_of_ne {key : String} (h : key ≠ "mcpServers") (existing : JsonValue)
    (name : String) (entry : JsonValue) :
    (mergeEntry existing name entry).get key = existing.get key := by
  rw [get_eq_lookup_fieldsOf, fieldsOf_mergeEntry, lookup_putField_of_ne h,
    get_eq_lookup_fieldsOf]

theorem get_mergeEntry_self (existing : JsonValue) (name : String) (entry : JsonValue) :
    (mergeEntry existing name entry).get "mcpServers" = some (.object (putField name entry
      (fieldsOf ((existing.get "mcpServers").getD (.object []))))) := by
  rw [get_eq_lookup_fieldsOf, fieldsOf_mergeEntry, lookup_putField_self]

theorem serverOf_mergeEntry_self (existing : JsonValue) (name : String) (entry : JsonValue) :
    serverOf (mergeEntry existing name entry) name = some entry := by
  rw [serverOf, get_mergeEntry_self]
  exact lookup_putField_self _ _ _

/-- Other servers are left alone. -/
theorem serverOf_mergeEntry_of_ne {name other : String} (h : other ≠ name) (existing : JsonValue)
    (entry : JsonValue) :
    serverOf (mergeEntry existing name entry) other = serverOf existing other := by
  rw [serverOf, get_mergeEntry_self, serverOf_eq_lookup]
  exact lookup_putField_of_ne h _ _

/-- What a config has besides some registrations. -/
structure Keeps (own : String → JsonValue → Prop) (initial config : JsonValue) : Prop where
  keys : ∀ key ≠ "mcpServers", config.get key = initial.get key
  servers : ∀ name, serverOf config name = serverOf initial name ∨
    ∃ entry, serverOf config name = some entry ∧ own name entry

theorem Keeps.refl (own : String → JsonValue → Prop) (initial : JsonValue) :
    Keeps own initial initial := ⟨fun _ _ => rfl, fun _ => .inl rfl⟩

theorem Keeps.mergeEntry {own : String → JsonValue → Prop} {initial config : JsonValue}
    (h : Keeps own initial config) {name : String} {entry : JsonValue} (hown : own name entry) :
    Keeps own initial (mergeEntry config name entry) where
  keys key hkey := by rw [get_mergeEntry_of_ne hkey, h.keys key hkey]
  servers other := by
    by_cases hother : other = name
    · subst hother
      exact .inr ⟨entry, serverOf_mergeEntry_self config other entry, hown⟩
    · rw [serverOf_mergeEntry_of_ne hother]
      exact h.servers other

/-! ## What a file holds -/

section Disk

variable (serde : SerdeJson)

/-- The config that reading a file yields. -/
def configValue : Option (List UInt8) → Option JsonValue
  | none => some (.object [])
  | some bytes => (decode? bytes).bind fun text =>
      if (trim text).isEmpty then some (.object []) else (serde.fromStr text).toOption

variable (faults : Faults ConfigPath)

/-- The config that a command may find under a path: what the file holds, or nothing if it is
hidden. -/
def ReadsConfig (d : Disk ConfigPath) (path : ConfigPath) (config : JsonValue) : Prop :=
  configValue serde (d path) = some config ∨ faults.hidden path ∧ config = .object []

/-- A config of the command holds the whole of what was found there merged with the entry. -/
def Completed (c : InstallCommand) (d : Disk ConfigPath) (path : ConfigPath)
    (d' : Disk ConfigPath) : Prop :=
  path ∈ c.configs ∧ ∃ config text, ReadsConfig serde faults d path config ∧
    serde.toStringPretty (mergeEntry config c.name c.entry) = .ok text ∧
    d' path = some (encode text.toList)

/-- Every file that is the sidecar of none and is not torn is as it was, or completed. -/
def Settled (c : InstallCommand) (d d' : Disk ConfigPath) : Prop :=
  ∀ path : ConfigPath, path.IsTarget → (c.WritesInPlace path → ¬ faults.torn path) →
    d' path = d path ∨ Completed serde faults c d path d'

/-- A success that changes a config names one that is completed. -/
def Confirmed (tables : UnicodeTables) (c : InstallCommand) (d : Disk ConfigPath)
    (result : Except GraphError String) (d' : Disk ConfigPath) : Prop :=
  ∀ message, result = .ok message → c.registers = true →
    ∃ path, message = registeredMessage tables c.name path ∧
      Completed serde faults c d path d'

end Disk

section Programs

variable {serde : SerdeJson} {tables : UnicodeTables} {faults : Faults ConfigPath}
  {d : Disk ConfigPath}

theorem parseConfig_eq_ok {path : ConfigPath} {text : String} {v : JsonValue}
    (h : parseConfig serde path text = .ok v) :
    configValue serde (some (encode text.toList)) = some v := by
  rw [configValue, decode?_encode, String.ofList_toList, Option.bind_some]
  unfold parseConfig at h
  split at h
  next hblank =>
    cases h
    exact if_pos hblank
  next hblank =>
    rw [if_neg hblank, mapError_eq_ok_iff.mp h]
    rfl

theorem triple_readConfig (path : ConfigPath) :
    Triple (Step faults) (· = d) (readConfig serde path)
      (fun result d' => d' = d ∧ ∀ v, result = .ok v → ReadsConfig serde faults d path v)
      (· = d) := by
  refine triple_found rfl fun found hfound => ?_
  cases found with
  | false =>
      refine Triple.pure (fun s hs => ⟨hs, ?_⟩) fun _ hs => hs
      rintro v ⟨⟩
      rcases hfound with hnone | ⟨hhidden, -⟩
      · rw [ReadsConfig, Option.isSome_eq_false_iff.mp hnone.symm |> Option.isNone_iff_eq_none.mp]
        exact .inl rfl
      · exact .inr ⟨hhidden, rfl⟩
  | true =>
      refine triple_read.mono ?_ fun _ hs => hs
      rintro result d' ⟨rfl, ans, hans, rfl⟩
      refine ⟨rfl, fun v hv => ?_⟩
      obtain ⟨text, hread, hparse⟩ := bind_eq_ok_iff.mp hv
      have hholds := hans _ (readText_eq_ok_iff.mp (mapError_eq_ok_iff.mp hread))
      exact .inl (hholds ▸ parseConfig_eq_ok hparse)

theorem triple_firstFound {cs : List ConfigPath} {fallback : ConfigPath} (hfallback : fallback ∈ cs)
    {candidates : List ConfigPath} (hsub : candidates ⊆ cs) :
    Triple (Step faults) (· = d) (firstFound fallback candidates)
      (fun result d' => d' = d ∧ ∀ path, result = .ok path → path ∈ cs) (· = d) := by
  have hpure : ∀ c ∈ cs, Triple (Step faults) (· = d) (.pure c : InstallProgram ConfigPath)
      (fun result d' => d' = d ∧ ∀ path, result = .ok path → path ∈ cs) (· = d) := by
    refine fun c hc => Triple.pure (fun s hs => ⟨hs, ?_⟩) fun _ hs => hs
    rintro path ⟨⟩
    exact hc
  induction candidates with
  | nil => exact hpure fallback hfallback
  | cons c candidates ih =>
      obtain ⟨hc, hrest⟩ := List.cons_subset.mp hsub
      refine triple_found rfl fun found _ => ?_
      cases found with
      | true => exact hpure c hc
      | false => exact ih hrest

theorem triple_resolveConfigPath (env : InstallEnv) (graph : String)
    (configPath : Option ConfigPath) (dryRun : Bool) :
    Triple (Step faults) (· = d) (resolveConfigPath env configPath)
      (fun result d' => d' = d ∧ ∀ path, result = .ok path →
        path ∈ (InstallCommand.install env graph configPath dryRun).configs) (· = d) := by
  cases configPath with
  | some path =>
      refine Triple.pure (fun s hs => ⟨hs, ?_⟩) fun _ hs => hs
      rintro path' ⟨⟩
      exact List.mem_singleton_self path
  | none =>
      unfold resolveConfigPath
      dsimp only
      split
      next => exact Triple.fail (fun _ hs => ⟨hs, fun _ h => absurd h error_ne_ok⟩) fun _ hs => hs
      next first rest hcandidates =>
        have hconfigs : (InstallCommand.install env graph none dryRun).configs = first :: rest :=
          hcandidates
        rw [hconfigs]
        exact triple_firstFound List.mem_cons_self fun _ h => h

theorem triple_toPretty (value : JsonValue) :
    Triple (Step faults) (· = d) (toPretty serde value)
      (fun result d' => d' = d ∧ ∀ text, result = .ok text →
        serde.toStringPretty value = .ok text) (· = d) :=
  Triple.ofExcept (fun _ hs => ⟨hs, fun _ => mapError_eq_ok_iff.mp⟩) fun _ hs => hs

theorem triple_write (path : ConfigPath) (bytes : List UInt8) (what : String) :
    Triple (Step faults) (· = d) (change (.write path bytes) id what)
      (fun result d' => (∀ other ≠ path, d' other = d other) ∧
        (result = .ok () → d' path = some bytes) ∧
        (¬ faults.torn path → d' path = d path ∨ d' path = some bytes))
      (fun d' => (∀ other ≠ path, d' other = d other) ∧
        (¬ faults.torn path → d' path = d path ∨ d' path = some bytes)) := by
  refine Triple.request (fun s hs => hs ▸ ⟨fun _ _ => rfl, fun _ => .inl rfl⟩) ?_
  rintro s ans d' rfl hstep
  have hframe : ∀ other ≠ path, d' other = s other := fun other hother =>
    hstep.frame (by simpa [Op.touched] using hother)
  cases ans with
  | ok u =>
      have hpath : d' path = some bytes := by
        rw [hstep]
        exact PartialMap.insert_self _ _ _
      exact ⟨⟨hframe, fun _ => hpath, fun _ => .inr hpath⟩, hframe, fun _ => .inr hpath⟩
  | error e =>
      have hwhole : ¬ faults.torn path → d' path = s path ∨ d' path = some bytes := fun hnot => by
        rcases hstep with rfl | ⟨htorn, -⟩
        · exact .inl rfl
        · exact absurd htorn hnot
      exact ⟨⟨hframe, fun h => absurd h error_ne_ok, hwhole⟩, hframe, hwhole⟩

theorem triple_rename (source target : ConfigPath) (what : String) :
    Triple (Step faults) (· = d) (change (.rename source target) id what)
      (fun result d' => (∀ other, other ≠ source → other ≠ target → d' other = d other) ∧
        (result = .ok () → d' target = d source) ∧ (d' = d ∨ d' target = d source))
      (fun d' => (∀ other, other ≠ source → other ≠ target → d' other = d other) ∧
        (d' = d ∨ d' target = d source)) := by
  refine Triple.request (fun s hs => hs ▸ ⟨fun _ _ _ => rfl, .inl rfl⟩) ?_
  rintro s ans d' rfl hstep
  have hframe : ∀ other, other ≠ source → other ≠ target → d' other = s other :=
    fun other hsource htarget => hstep.frame (by simp [Op.touched, hsource, htarget])
  cases ans with
  | ok u =>
      obtain ⟨bytes, hbytes, rfl⟩ := hstep
      have htarget : ((s.erase source).insert target bytes) target = s source := by
        rw [PartialMap.insert_self, hbytes]
      exact ⟨⟨hframe, fun _ => htarget, .inr htarget⟩, hframe, .inr htarget⟩
  | error e => exact ⟨⟨hframe, fun h => absurd h error_ne_ok, .inl hstep⟩, hframe, .inl hstep⟩

theorem triple_ensureParent (path : ConfigPath) :
    Triple (Step faults) (· = d) (ensureParent path) (fun _ d' => d' = d) (· = d) := by
  unfold ensureParent
  split
  · exact Triple.pure (fun _ hs => hs) fun _ hs => hs
  · refine Triple.request (fun _ hs => hs) ?_
    rintro s ans d' rfl hstep
    exact ⟨hstep, hstep⟩

variable (serde) in
/-- No file that is the sidecar of none is changed, but for `path`, and that holds all of
`config` then. -/
def Replaced (d : Disk ConfigPath) (path : ConfigPath) (config : JsonValue)
    (d' : Disk ConfigPath) : Prop :=
  ∀ other : ConfigPath, other.IsTarget → d' other = d other ∨
    other = path ∧ ∃ text, serde.toStringPretty config = .ok text ∧
      d' other = some (encode text.toList)

theorem Replaced.of_eq (path : ConfigPath) (config : JsonValue) {d' : Disk ConfigPath}
    (h : d' = d) : Replaced serde d path config d' := fun _ _ => .inl (h ▸ rfl)

/-- The sidecar that holds the config is renamed over it, or not at all. -/
theorem Replaced.of_renamed {path : ConfigPath} {config : JsonValue} {text : String}
    {d₁ d' : Disk ConfigPath} (htext : serde.toStringPretty config = .ok text)
    (htargets : ∀ other : ConfigPath, other.IsTarget → d₁ other = d other)
    (hbak : d₁ path.bak = some (encode text.toList))
    (hframe : ∀ other, other ≠ path.bak → other ≠ path → d' other = d₁ other)
    (hpath : d' = d₁ ∨ d' path = d₁ path.bak) : Replaced serde d path config d' := by
  intro other hother
  rcases hpath with rfl | hpath
  · exact .inl (htargets other hother)
  · by_cases heq : other = path
    · subst heq
      exact .inr ⟨rfl, text, htext, hpath.trans hbak⟩
    · rw [hframe other (hother path).symm heq]
      exact .inl (htargets other hother)

theorem triple_atomicWriteAndVerify (path : ConfigPath) (config : JsonValue) (name : String) :
    Triple (Step faults) (· = d) (atomicWriteAndVerify serde tables path config name)
      (fun result d' => Replaced serde d path config d' ∧ (result = .ok () →
        ∃ text, serde.toStringPretty config = .ok text ∧ d' path = some (encode text.toList)))
      (Replaced serde d path config) := by
  have hsame : ∀ d', d' = d → Replaced serde d path config d' :=
    fun d' => Replaced.of_eq path config
  have herror : ∀ {e : GraphError} {P : Prop}, (.error e : Except GraphError Unit) = .ok () → P :=
    fun h => absurd h error_ne_ok
  refine Triple.bind ((triple_ensureParent path).crash_mono hsame) (fun _ => ?_)
    fun e d' hs => ⟨hsame d' hs, herror⟩
  refine Triple.bind ((triple_toPretty config).crash_mono hsame)
    (fun text => Triple.of_forall ?_) fun e d' hs => ⟨hsame d' hs.1, herror⟩
  rintro d₀ ⟨rfl, htext⟩
  -- the sidecar is written, the targets are left alone
  have htargets : ∀ {d' : Disk ConfigPath}, (∀ other ≠ path.bak, d' other = d₀ other) →
      ∀ other : ConfigPath, other.IsTarget → d' other = d₀ other :=
    fun hframe other hother => hframe other (hother path).symm
  refine Triple.bind ((triple_write path.bak (encode text.toList) _).crash_mono
      fun d' hs other hother => .inl (htargets hs.1 other hother)) (fun _ => Triple.of_forall ?_)
    fun e d' hs => ⟨fun other hother => .inl (htargets hs.1 other hother), herror⟩
  rintro d₁ ⟨hframe, hbak, -⟩
  have hrenamed : ∀ d' : Disk ConfigPath,
      (∀ other, other ≠ path.bak → other ≠ path → d' other = d₁ other) →
      (d' = d₁ ∨ d' path = d₁ path.bak) → Replaced serde d₀ path config d' :=
    fun d' => Replaced.of_renamed (htext text rfl) (htargets hframe) (hbak rfl)
  refine Triple.bind ((triple_rename path.bak path _).crash_mono
      fun d' hs => hrenamed d' hs.1 hs.2) (fun _ => Triple.of_forall ?_)
    fun e d' hs => ⟨hrenamed d' hs.1 hs.2.2, herror⟩
  rintro d₂ ⟨hothers, hpath, hor⟩
  have hdone := hrenamed d₂ hothers hor
  have hholds : d₂ path = some (encode text.toList) := (hpath rfl).trans (hbak rfl)
  refine Triple.bind ((triple_readConfig path).mono (fun _ _ hs => hs.1) fun d' hs => hs ▸ hdone)
    (fun readback => ?_) fun e d' hs => ⟨hs ▸ hdone, herror⟩
  split
  · exact Triple.pure (fun d' hs => ⟨hs ▸ hdone, fun _ => ⟨text, htext text rfl, hs ▸ hholds⟩⟩)
      fun d' hs => hs ▸ hdone
  · exact Triple.fail (fun d' hs => ⟨hs ▸ hdone, herror⟩) fun d' hs => hs ▸ hdone

/-! ## The commands -/

theorem Settled.of_eq {c : InstallCommand} {d' : Disk ConfigPath} (h : d' = d) :
    Settled serde faults c d d' := fun _ _ _ => .inl (h ▸ rfl)

theorem confirmed_error {c : InstallCommand} {e : GraphError} {d' : Disk ConfigPath} :
    Confirmed serde faults tables c d (.error e) d' := fun _ h => absurd h error_ne_ok

/-- A command that only shows a config has nothing to confirm. -/
theorem confirmed_of_not_registers {c : InstallCommand} (hc : c.registers = false)
    {result : Except GraphError String} {d' : Disk ConfigPath} :
    Confirmed serde faults tables c d result d' := fun _ _ h =>
  absurd (hc.symm.trans h) Bool.false_ne_true

theorem triple_install (env : InstallEnv) (graph : String) (configPath : Option ConfigPath)
    (dryRun : Bool) :
    Triple (Step faults) (· = d) (Install.runInner serde tables env graph configPath dryRun)
      (fun result d' => Settled serde faults (.install env graph configPath dryRun) d d' ∧
        Confirmed serde faults tables (.install env graph configPath dryRun) d result d')
      (Settled serde faults (.install env graph configPath dryRun) d) := by
  have hsame : ∀ d', d' = d → Settled serde faults (.install env graph configPath dryRun) d d' :=
    fun d' => Settled.of_eq
  refine Triple.bind ((triple_resolveConfigPath env graph configPath dryRun).crash_mono hsame)
    (fun path => Triple.of_forall ?_) fun e d' hs => ⟨hsame d' hs.1, confirmed_error⟩
  rintro d₀ ⟨rfl, hresolved⟩
  have hconfig := hresolved path rfl
  refine Triple.bind ((triple_readConfig path).crash_mono hsame)
    (fun existing => Triple.of_forall ?_) fun e d' hs => ⟨hsame d' hs.1, confirmed_error⟩
  rintro d₀ ⟨rfl, hexisting⟩
  have hvalue := hexisting existing rfl
  cases dryRun with
  | true =>
      refine Triple.bind ((triple_toPretty _).mono (fun _ _ hs => hs.1) hsame)
        (fun preview => ?_) fun e d' hs => ⟨hsame d' hs, confirmed_error⟩
      exact Triple.pure (fun d' hs => ⟨hsame d' hs, confirmed_of_not_registers rfl⟩) hsame
  | false =>
      have hsettled : ∀ d', Replaced serde d₀ path (mergeEntry existing Install.mcpServerName
          (buildEntry (binaryPath env) graph)) d' →
          Settled serde faults (.install env graph configPath false) d₀ d' := by
        intro d' hreplaced other hother _
        rcases hreplaced other hother with hframe | ⟨rfl, text, htext, hholds⟩
        · exact .inl hframe
        · exact .inr ⟨hconfig, existing, text, hvalue, htext, hholds⟩
      refine Triple.bind ((triple_atomicWriteAndVerify path _ _).crash_mono hsettled) (fun _ => ?_)
        fun e d' hs => ⟨hsettled d' hs.1, confirmed_error⟩
      refine Triple.pure (fun d' hs => ⟨hsettled d' hs.1, ?_⟩) fun d' hs => hsettled d' hs.1
      rintro message ⟨⟩ -
      obtain ⟨text, htext, hholds⟩ := hs.2 rfl
      exact ⟨path, rfl, hconfig, existing, text, hvalue, htext, hholds⟩

theorem triple_installMcp (env : InstallEnv) (graph name : String) (write : Option ConfigPath) :
    Triple (Step faults) (· = d) (InstallMcp.runInner serde tables env graph name write)
      (fun result d' => Settled serde faults (.installMcp env graph name write) d d' ∧
        Confirmed serde faults tables (.installMcp env graph name write) d result d')
      (Settled serde faults (.installMcp env graph name write) d) := by
  have hsame : ∀ d', d' = d → Settled serde faults (.installMcp env graph name write) d d' :=
    fun d' => Settled.of_eq
  cases write with
  | none =>
      refine Triple.bind ((triple_toPretty _).mono (fun _ _ hs => hs.1) hsame)
        (fun block => ?_) fun e d' hs => ⟨hsame d' hs, confirmed_error⟩
      exact Triple.pure (fun d' hs => ⟨hsame d' hs, confirmed_of_not_registers rfl⟩) hsame
  | some path =>
      refine Triple.bind ((triple_readConfig path).crash_mono hsame)
        (fun existing => Triple.of_forall ?_) fun e d' hs => ⟨hsame d' hs.1, confirmed_error⟩
      rintro d₀ ⟨rfl, hexisting⟩
      have hvalue := hexisting existing rfl
      refine Triple.bind ((triple_toPretty _).crash_mono hsame)
        (fun text => Triple.of_forall ?_) fun e d' hs => ⟨hsame d' hs.1, confirmed_error⟩
      rintro d₁ ⟨rfl, htext⟩
      -- a write in place completes the config or, if it is not torn, leaves it alone
      have hsettled : ∀ d' : Disk ConfigPath, (∀ other ≠ path, d' other = d₁ other) →
          (¬ faults.torn path → d' path = d₁ path ∨ d' path = some (encode text.toList)) →
          Settled serde faults (.installMcp env graph name (some path)) d₁ d' := by
        intro d' hframe hwhole other _ hnot
        by_cases heq : other = path
        · subst heq
          exact (hwhole (hnot rfl)).imp id fun hholds =>
            ⟨List.mem_singleton_self _, existing, text, hvalue, htext text rfl, hholds⟩
        · exact .inl (hframe other heq)
      refine Triple.bind ((triple_write path (encode text.toList) _).crash_mono
          fun d' hs => hsettled d' hs.1 hs.2) (fun _ => ?_)
        fun e d' hs => ⟨hsettled d' hs.1 hs.2.2, confirmed_error⟩
      refine Triple.pure (fun d' hs => ⟨hsettled d' hs.1 hs.2.2, ?_⟩)
        fun d' hs => hsettled d' hs.1 hs.2.2
      rintro message ⟨⟩ -
      exact ⟨path, rfl, List.mem_singleton_self _, existing, text, hvalue, htext text rfl,
        hs.2.1 rfl⟩

theorem triple_program (c : InstallCommand) :
    Triple (Step faults) (· = d) (c.program serde tables)
      (fun result d' => Settled serde faults c d d' ∧ Confirmed serde faults tables c d result d')
      (Settled serde faults c d) := by
  cases c with
  | install env graph configPath dryRun => exact triple_install env graph configPath dryRun
  | installMcp env graph name write => exact triple_installMcp env graph name write

end Programs

/-! ## Sessions -/

section Sessions

variable (serde : SerdeJson) (tables : UnicodeTables) (faults : Faults ConfigPath)

/-- Whatever config a run of the session may find where it is to register its entry, the merged
config is printed, and its text parsed back. -/
def RoundTripsIn (d : Disk ConfigPath)
    (runs : List (InstallCommand × Option (Except GraphError String))) : Prop :=
  ∀ front run, front ++ [run] <+: runs →
    ∀ s, Session (Step faults) (InstallCommand.program serde tables) d front s →
      ∀ path ∈ run.1.configs, ∀ config, ReadsConfig serde faults s path config →
        serde.RoundTrips (mergeEntry config run.1.name run.1.entry)

variable {serde tables faults} {d d' : Disk ConfigPath}
  {runs : List (InstallCommand × Option (Except GraphError String))}

/-- A completed config is read as the merged one. -/
theorem exists_config_of_completed {c : InstallCommand} {path : ConfigPath}
    (hblank : ∀ text v, serde.fromStr text = .ok v → ¬ (trim text).isEmpty)
    (hserde : ∀ path ∈ c.configs, ∀ config, ReadsConfig serde faults d path config →
      serde.RoundTrips (mergeEntry config c.name c.entry))
    (h : Completed serde faults c d path d') :
    ∃ config, ReadsConfig serde faults d path config ∧
      configValue serde (d' path) = some (mergeEntry config c.name c.entry) := by
  obtain ⟨hpath, config, text, hconfig, htext, hholds⟩ := h
  obtain ⟨text', hprint, hparse⟩ := hserde path hpath config hconfig
  obtain rfl : text' = text := Except.ok.inj (hprint.symm.trans htext)
  refine ⟨config, hconfig, ?_⟩
  rw [hholds, configValue, decode?_encode, String.ofList_toList, Option.bind_some,
    if_neg (hblank text' _ hparse), hparse]
  rfl

theorem settled_of_sessionStep {run : InstallCommand × Option (Except GraphError String)}
    (h : SessionStep (Step faults) (InstallCommand.program serde tables) d run d') :
    Settled serde faults run.1 d d' :=
  Triple.of_sessionStep h ((triple_program run.1).mono (fun _ _ hs => hs.1) fun _ hs => hs) rfl

/-- The entry is one that some run was to register. -/
def RegisteredBy (runs : List (InstallCommand × Option (Except GraphError String)))
    (name : String) (entry : JsonValue) : Prop :=
  ∃ run ∈ runs, run.1.name = name ∧ run.1.entry = entry

/-- A file that reads as a config keeps everything but what is registered. -/
theorem keeps_of_session
    (h : Session (Step faults) (InstallCommand.program serde tables) d runs d')
    (hblank : ∀ text v, serde.fromStr text = .ok v → ¬ (trim text).isEmpty)
    (hserde : RoundTripsIn serde tables faults d runs)
    {path : ConfigPath} (htarget : path.IsTarget) (hvisible : ¬ faults.hidden path)
    (hwhole : ∀ run ∈ runs, run.1.WritesInPlace path → ¬ faults.torn path) {initial : JsonValue}
    (hinitial : configValue serde (d path) = some initial) :
    ∃ config, configValue serde (d' path) = some config ∧
      Keeps (RegisteredBy runs) initial config := by
  refine h.preserves_from (fun s => ∃ config, configValue serde (s path) = some config ∧
    Keeps (RegisteredBy runs) initial config) ?_ ⟨initial, hinitial, Keeps.refl _ _⟩
  rintro front run hstarts s hfront s' hstep ⟨config, hconfig, hkeeps⟩
  have hrun : run ∈ runs := hstarts.subset (by simp)
  rcases settled_of_sessionStep hstep path htarget (hwhole run hrun) with hframe | hcompleted
  · exact ⟨config, hframe ▸ hconfig, hkeeps⟩
  · obtain ⟨config', hread | ⟨hhidden, -⟩, hmerged⟩ :=
      exists_config_of_completed hblank (hserde front run hstarts s hfront) hcompleted
    · obtain rfl : config' = config := Option.some.inj (hread.symm.trans hconfig)
      exact ⟨_, hmerged, hkeeps.mergeEntry ⟨run, hrun, rfl, rfl⟩⟩
    · exact absurd hhidden hvisible

/-- A file that does not read as a config is never changed. -/
theorem eq_of_session (h : Session (Step faults) (InstallCommand.program serde tables) d runs d')
    {path : ConfigPath} (htarget : path.IsTarget) (hvisible : ¬ faults.hidden path)
    (hwhole : ∀ run ∈ runs, run.1.WritesInPlace path → ¬ faults.torn path)
    (hnone : configValue serde (d path) = none) : d' path = d path := by
  refine h.preserves (fun s => s path = d path) ?_ rfl
  intro s run hrun s' hstep hs
  rcases settled_of_sessionStep hstep path htarget (hwhole run hrun) with
    hframe | ⟨-, config, -, hread | ⟨hhidden, -⟩, -⟩
  · exact hframe.trans hs
  · rw [hs, hnone] at hread
    cases hread
  · exact absurd hhidden hvisible

/-- In every session of installations, cut or not, a config that is no sidecar and is found
where it is stays whole and keeps all but the servers registered; one that cannot be read stays
as it is. A run that writes the config in place must not be torn for that. A reported success is
true. Of the JSON library it is asked that the merged configs of the session round trip, and
that no text of blanks is a value. -/
theorem config_of_session
    (h : Session (Step faults) (InstallCommand.program serde tables) d runs d')
    (hblank : ∀ text v, serde.fromStr text = .ok v → ¬ (trim text).isEmpty)
    (hserde : RoundTripsIn serde tables faults d runs) :
    (∀ path : ConfigPath, path.IsTarget → ¬ faults.hidden path →
      (∀ run ∈ runs, run.1.WritesInPlace path → ¬ faults.torn path) →
      match configValue serde (d path) with
      | none => d' path = d path
      | some initial => ∃ config, configValue serde (d' path) = some config ∧
          Keeps (RegisteredBy runs) initial config) ∧
    (∀ c message, runs.getLast? = some (c, some (.ok message)) → c.registers = true →
      ∃ path ∈ c.configs, ∃ config, message = registeredMessage tables c.name path ∧
        configValue serde (d' path) = some config ∧ serverOf config c.name = some c.entry) := by
  constructor
  · intro path htarget hvisible hwhole
    split
    next hnone => exact eq_of_session h htarget hvisible hwhole hnone
    next initial hinitial =>
      exact keeps_of_session h hblank hserde htarget hvisible hwhole hinitial
  · intro c message hlast hregisters
    obtain ⟨front, rfl⟩ := List.getLast?_eq_some_iff.mp hlast
    obtain ⟨s, hfront, hstep⟩ := steps_append_iff.mp h
    obtain ⟨s', ⟨trace, hrun⟩, htail⟩ := steps_cons_iff.mp hstep
    cases htail
    obtain ⟨path, hmessage, hcompleted⟩ :=
      ((triple_program c).ends rfl hrun).2 message rfl hregisters
    obtain ⟨config, -, hmerged⟩ := exists_config_of_completed hblank
      (hserde front _ List.prefix_rfl s hfront) hcompleted
    exact ⟨path, hcompleted.1, _, hmessage, hmerged,
      serverOf_mergeEntry_self config c.name c.entry⟩

end Sessions

/-! ## Undisturbed installations -/

section Undisturbed

variable {serde : SerdeJson} {room : Option Nat} {d : Disk ConfigPath}

theorem parseConfig_of_configValue {path : ConfigPath} {text : String} {v : JsonValue}
    (h : configValue serde (some (encode text.toList)) = some v) :
    parseConfig serde path text = .ok v := by
  rw [configValue, decode?_encode, String.ofList_toList, Option.bind_some] at h
  unfold parseConfig
  split
  next hblank =>
    rw [if_pos hblank] at h
    rw [Option.some.inj h]
  next hblank =>
    rw [if_neg hblank] at h
    cases hread : serde.fromStr text with
    | error e => simp [hread, Except.toOption] at h
    | ok value =>
        rw [hread] at h
        rw [Option.some.inj h]
        rfl

theorem perform_readConfig {path : ConfigPath} {v : JsonValue}
    (h : configValue serde (d path) = some v) :
    perform (respond room) (readConfig serde path) d = some (.ok v, d) := by
  cases hpath : d path with
  | none =>
      rw [hpath] at h
      cases h
      simp [readConfig, perform, respond, hpath]
  | some bytes =>
      rw [hpath] at h
      obtain ⟨text, hdecode, -⟩ := Option.bind_eq_some_iff.mp h
      obtain rfl := decode?_eq_some_iff.mp hdecode
      have hread : ((readText (.ok (encode text.toList))).mapError fun e =>
          GraphError.io ("read " ++ path.display ++ ": " ++ e)).bind (parseConfig serde path) =
          .ok v := by
        rw [readText_eq_ok_iff.mpr rfl]
        exact parseConfig_of_configValue h
      simp [readConfig, perform, respond, hpath, request, hread]

theorem perform_ensureParent (path : ConfigPath) (d : Disk ConfigPath) :
    perform (respond room) (ensureParent path) d = some (.ok (), d) := by
  unfold ensureParent
  split <;> rfl

theorem perform_toPretty {value : JsonValue} {text : String}
    (h : serde.toStringPretty value = .ok text) :
    perform (respond room) (toPretty serde value) d = some (.ok text, d) := by
  rw [toPretty, h]
  rfl

/-- On a full device the sidecar is torn and the config is left alone. -/
theorem perform_install_full (tables : UnicodeTables) (d : Disk ConfigPath) (path : ConfigPath)
    (env : InstallEnv) (graph : String) (n : Nat) {config : JsonValue} {text : String}
    (hconfig : configValue serde (d path) = some config)
    (htext : serde.toStringPretty (mergeEntry config Install.mcpServerName
      (buildEntry (binaryPath env) graph)) = .ok text) :
    perform (respond (some n)) (Install.runInner serde tables env graph (some path) false) d =
      some (.error (.io ("write bak " ++ path.bak.display ++ ": " ++
        "No space left on device (os error 28)")),
        d.insert path.bak ((encode text.toList).take n)) := by
  have hwritten : perform (respond (some n)) (change (.write path.bak (encode text.toList)) id
      ("write bak " ++ path.bak.display)) d = some (.error (.io ("write bak " ++
        path.bak.display ++ ": " ++ "No space left on device (os error 28)")),
      d.insert path.bak ((encode text.toList).take n)) := rfl
  have htorn : perform (respond (some n)) (atomicWriteAndVerify serde tables path
      (mergeEntry config Install.mcpServerName (buildEntry (binaryPath env) graph))
      Install.mcpServerName) d = some (.error (.io ("write bak " ++ path.bak.display ++ ": " ++
        "No space left on device (os error 28)")),
      d.insert path.bak ((encode text.toList).take n)) := by
    rw [atomicWriteAndVerify, perform_bind (perform_ensureParent path d),
      perform_bind (perform_toPretty htext)]
    exact perform_bind_error hwritten
  have hresolved : perform (respond (some n)) (resolveConfigPath env (some path)) d =
      some (.ok path, d) := rfl
  rw [Install.runInner, perform_bind hresolved, perform_bind (perform_readConfig hconfig)]
  exact perform_bind_error htorn

/-- Where nothing goes wrong, a config that can be read is merged and read back. -/
theorem perform_install (tables : UnicodeTables) (d : Disk ConfigPath) (path : ConfigPath)
    (env : InstallEnv) (graph : String) {config : JsonValue} {text : String}
    (hconfig : configValue serde (d path) = some config)
    (htext : serde.toStringPretty (mergeEntry config Install.mcpServerName
      (buildEntry (binaryPath env) graph)) = .ok text)
    (hback : configValue serde (some (encode text.toList)) = some (mergeEntry config
      Install.mcpServerName (buildEntry (binaryPath env) graph))) :
    ∃ d', perform (respond none) (Install.runInner serde tables env graph (some path) false) d =
        some (.ok (registeredMessage tables Install.mcpServerName path), d') ∧
      d' path = some (encode text.toList) := by
  have hwritten : perform (respond none) (change (.write path.bak (encode text.toList)) id
      ("write bak " ++ path.bak.display)) d =
      some (.ok (), d.insert path.bak (encode text.toList)) := rfl
  have hbak : (d.insert path.bak (encode text.toList)) path.bak = some (encode text.toList) :=
    PartialMap.insert_self _ _ _
  generalize d.insert path.bak (encode text.toList) = d₁ at hwritten hbak
  have hrenamed : perform (respond none) (change (.rename path.bak path) id
      ("rename " ++ path.bak.display ++ "->" ++ path.display)) d₁ =
      some (.ok (), (d₁.erase path.bak).insert path (encode text.toList)) := by
    simp [change, request, perform, respond, hbak, Except.mapError]
  have hholds : ((d₁.erase path.bak).insert path (encode text.toList)) path =
      some (encode text.toList) := PartialMap.insert_self _ _ _
  generalize (d₁.erase path.bak).insert path (encode text.toList) = d₂ at hrenamed hholds
  refine ⟨d₂, ?_, hholds⟩
  have hverified : perform (respond none) (atomicWriteAndVerify serde tables path (mergeEntry config
      Install.mcpServerName (buildEntry (binaryPath env) graph)) Install.mcpServerName) d =
      some (.ok (), d₂) := by
    rw [atomicWriteAndVerify, perform_bind (perform_ensureParent path d),
      perform_bind (perform_toPretty htext), perform_bind hwritten, perform_bind hrenamed,
      perform_bind (perform_readConfig (hholds ▸ hback)), serverOf_mergeEntry_self]
    rfl
  have hresolved : perform (respond none) (resolveConfigPath env (some path)) d =
      some (.ok path, d) := rfl
  rw [Install.runInner, perform_bind hresolved, perform_bind (perform_readConfig hconfig)]
  exact perform_bind hverified

end Undisturbed

namespace TornInstall

def env : InstallEnv := ⟨none, none, some "/opt/hg"⟩

def path : ConfigPath := ⟨"claude", "mcp.json"⟩

def command : InstallCommand := .install env "g.json" (some path) false

/-- A config with another server and a key of its own. -/
def initial : JsonValue := .object [
  ("mcpServers", .object [("files", .object [("command", .string "fs")])]),
  ("theme", .string "dark")]

def merged : JsonValue := mergeEntry initial command.name command.entry

def serde : SerdeJson := SerdeJson.knowing [initial, merged]

/-- The config holds its text. -/
def disk : Disk ConfigPath :=
  PartialMap.empty.insert path (encode (String.ofList (initial.pretty [])).toList)

theorem fromStr_eq_ok {text : String} {v : JsonValue} (h : serde.fromStr text = .ok v) :
    text = String.ofList (v.pretty []) ∧ (v = initial ∨ v = merged) := by
  unfold serde SerdeJson.knowing at h
  dsimp only at h
  split at h
  next value hfind =>
    cases h
    have hmem := List.mem_of_find?_eq_some hfind
    have htext : String.ofList (v.pretty []) = text := by simpa using List.find?_some hfind
    exact ⟨htext.symm, List.mem_pair.mp hmem⟩
  next => cases h

theorem not_blank {text : String} {v : JsonValue} (h : serde.fromStr text = .ok v) :
    ¬ (trim text).isEmpty := by
  obtain ⟨rfl, rfl | rfl⟩ := fromStr_eq_ok h
  · rw [trim_isEmpty_iff, String.toList_ofList]
    decide
  · rw [trim_isEmpty_iff, String.toList_ofList]
    decide

theorem roundTrips_initial : serde.RoundTrips initial :=
  SerdeJson.knowing_roundTrips (by simp)

theorem roundTrips_merged : serde.RoundTrips merged := by
  have hne : initial.pretty [] ≠ merged.pretty [] := by decide
  apply SerdeJson.knowing_roundTrips
  rw [List.find?_cons_of_neg (by simpa [String.ofList_inj] using hne)]
  simp

theorem configValue_pretty {v : JsonValue} (h : serde.RoundTrips v) {text : String}
    (htext : serde.toStringPretty v = .ok text) :
    configValue serde (some (encode text.toList)) = some v := by
  obtain ⟨text', hprint, hparse⟩ := h
  obtain rfl : text' = text := Except.ok.inj (hprint.symm.trans htext)
  rw [configValue, decode?_encode, String.ofList_toList, Option.bind_some,
    if_neg (not_blank hparse), hparse]
  rfl

theorem configValue_disk : configValue serde (disk path) = some initial := by
  rw [disk, PartialMap.insert_self]
  exact configValue_pretty roundTrips_initial rfl

theorem isTarget_path : path.IsTarget := ConfigPath.isTarget_of_not_suffix (by decide)

theorem mergeEntry_of_mem {v : JsonValue} (h : v = initial ∨ v = merged) :
    mergeEntry v command.name command.entry = merged := by
  rcases h with rfl | rfl <;> rfl

/-- The config is the one there was, or the merged one. -/
theorem configValue_of_session {runs : List (InstallCommand × Option (Except GraphError String))}
    (hruns : ∀ run ∈ runs, run.1 = command) {s : Disk ConfigPath}
    (h : Session (Step Faults.tearing) (InstallCommand.program serde asciiTables) disk runs s) :
    ∃ v, configValue serde (s path) = some v ∧ (v = initial ∨ v = merged) := by
  refine h.preserves (fun s => ∃ v, configValue serde (s path) = some v ∧
    (v = initial ∨ v = merged)) ?_ ⟨initial, configValue_disk, .inl rfl⟩
  rintro s run hrun s' hstep ⟨v, hv, hmem⟩
  have hsettled := settled_of_sessionStep hstep path isTarget_path
    fun hin => False.elim (hruns run hrun ▸ hin : command.WritesInPlace path)
  rcases hsettled with hframe | ⟨-, config, text, hread | ⟨hhidden, -⟩, htext, hholds⟩
  · exact ⟨v, hframe ▸ hv, hmem⟩
  · obtain rfl : config = v := Option.some.inj (hread.symm.trans hv)
    rw [hruns run hrun, mergeEntry_of_mem hmem] at htext
    exact ⟨merged, hholds ▸ configValue_pretty roundTrips_merged htext, .inr rfl⟩
  · exact hhidden.elim

theorem roundTripsIn_disk {runs : List (InstallCommand × Option (Except GraphError String))}
    (hruns : ∀ run ∈ runs, run.1 = command) :
    RoundTripsIn serde asciiTables Faults.tearing disk runs := by
  rintro front run hstarts s hfront p hp config (hconfig | ⟨hhidden, -⟩)
  · have hrun : run.1 = command := hruns run (hstarts.subset (by simp))
    rw [hrun] at hp ⊢
    obtain rfl := List.mem_singleton.mp hp
    obtain ⟨v, hv, hmem⟩ := configValue_of_session
      (fun r hr => hruns r (hstarts.subset (List.mem_append_left _ hr))) hfront
    obtain rfl : config = v := Option.some.inj (hconfig.symm.trans hv)
    rw [mergeEntry_of_mem hmem]
    exact roundTrips_merged
  · exact hhidden.elim

/-- A run that leaves one byte in the sidecar, and one that succeeds. -/
def runs (e : GraphError) (message : String) :
    List (InstallCommand × Option (Except GraphError String)) :=
  [(command, some (.error e)), (command, some (.ok message))]

theorem eq_command_of_mem {e : GraphError} {message : String}
    {run : InstallCommand × Option (Except GraphError String)} (h : run ∈ runs e message) :
    run.1 = command := by
  rcases List.mem_pair.mp h with rfl | rfl <;> rfl

/-- A device with room for one byte: the config is not touched. -/
theorem exists_torn_step : ∃ e d₁, (d₁ path.bak).map List.length = some 1 ∧ d₁ path = disk path ∧
    SessionStep (Step Faults.tearing) (InstallCommand.program serde asciiTables) disk
      (command, some (.error e)) d₁ := by
  obtain ⟨text, htext, -⟩ := roundTrips_merged
  have hfull := perform_install_full asciiTables disk path env "g.json" 1 configValue_disk htext
  obtain ⟨trace, hrun⟩ := exists_run_of_perform (step_respond (some 1)) hfull
  refine ⟨_, _, ?_, PartialMap.insert_of_ne _ _ (by decide), trace, hrun⟩
  obtain ⟨chars, hchars⟩ : ∃ chars, merged.pretty [] = '\x7b' :: chars := ⟨_, rfl⟩
  obtain rfl : text = String.ofList (merged.pretty []) := (Except.ok.inj htext).symm
  rw [PartialMap.insert_self, String.toList_ofList, hchars, encode_cons]
  rfl

/-- A device with room, after that. -/
theorem exists_whole_step {d₁ : Disk ConfigPath} (hpath : d₁ path = disk path) : ∃ message d',
    SessionStep (Step Faults.tearing) (InstallCommand.program serde asciiTables) d₁
      (command, some (.ok message)) d' := by
  obtain ⟨text, htext, -⟩ := roundTrips_merged
  obtain ⟨d', hperform, -⟩ := perform_install asciiTables d₁ path env "g.json"
    (hpath ▸ configValue_disk) htext (configValue_pretty roundTrips_merged htext)
  obtain ⟨trace, hrun⟩ := exists_run_of_perform (step_respond none) hperform
  exact ⟨_, d', trace, hrun⟩

/-- The other server and the other key are there at the end. -/
theorem config_of_session_torn : ∃ e message d₁ d' value,
    SessionStep (Step Faults.tearing) (InstallCommand.program serde asciiTables) disk
      (command, some (.error e)) d₁ ∧ (d₁ path.bak).map List.length = some 1 ∧
    Session (Step Faults.tearing) (InstallCommand.program serde asciiTables) disk
      (runs e message) d' ∧
    configValue serde (d' path) = some value ∧ value.get "theme" = some (.string "dark") ∧
    serverOf value "files" = some (.object [("command", .string "fs")]) ∧
    serverOf value command.name = some command.entry := by
  obtain ⟨e, d₁, hbak, hpath, hfirst⟩ := exists_torn_step
  obtain ⟨message, d', hsecond⟩ := exists_whole_step hpath
  have hsession : Session (Step Faults.tearing) (InstallCommand.program serde asciiTables) disk
      (runs e message) d' := .cons hfirst (.cons hsecond (.nil _))
  obtain ⟨hkeeps, hconfirmed⟩ := config_of_session hsession (fun _ _ h => not_blank h)
    (roundTripsIn_disk fun run hrun => eq_command_of_mem hrun)
  have hkept := hkeeps path isTarget_path (fun h => h)
    fun run hrun hin => False.elim (eq_command_of_mem hrun ▸ hin : command.WritesInPlace path)
  rw [configValue_disk] at hkept
  obtain ⟨value, hvalue, hkept⟩ := hkept
  obtain ⟨path', hpath', value', -, hvalue', hown⟩ := hconfirmed command message rfl rfl
  obtain rfl : path' = path := List.mem_singleton.mp hpath'
  obtain rfl : value' = value := Option.some.inj (hvalue'.symm.trans hvalue)
  refine ⟨e, message, d₁, d', value', hfirst, hbak, hsession, hvalue, ?_, ?_, hown⟩
  · exact hkept.keys "theme" (by decide)
  · rcases hkept.servers "files" with hsame | ⟨entry, -, run, hrun, hname, -⟩
    · exact hsame
    · rw [eq_command_of_mem hrun] at hname
      exact absurd hname (by decide)

end TornInstall

end HabitatGraph
