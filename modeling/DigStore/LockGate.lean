import DigStore.Library.Scan
import DigStore.Lockfile

namespace DigStore.LockGate

open Library Lockfile

/-- A parseable manifest outside target directories, with its `[package]`. -/
def Declares (root : Root) (manifest : Manifest) (pkg : Package) : Prop :=
  inTarget root manifest = false ∧ ∃ document, manifest.content = .ok document ∧ document.package = .table pkg

def Malformed (root : Root) (manifest : Manifest) : Prop :=
  inTarget root manifest = false ∧ ∃ document, manifest.content = .ok document ∧ document.package = .other true

variable {root : Root} {wsVersion : Option String}

theorem declared_cases (root : Root) (wsVersion : Option String) (manifest : Manifest) :
    (Malformed root manifest ∧ declared root wsVersion manifest = .error .attribute) ∨
      declared root wsVersion manifest = .ok none ∨
      ∃ pkg name, Declares root manifest pkg ∧ pkg.name = some name ∧ name ≠ "" ∧
        declared root wsVersion manifest = .ok (some (name, resolve wsVersion pkg.version, manifest.posix)) := by
  unfold declared
  cases hin : inTarget root manifest with
  | true => exact .inr (.inl rfl)
  | false =>
      cases hload : manifest.content with
      | error error => exact .inr (.inl rfl)
      | ok document =>
          cases hpackage : document.package with
          | missing => exact .inr (.inl (by simp [hpackage]))
          | other truthy =>
              cases truthy with
              | false => exact .inr (.inl (by simp [hpackage]))
              | true => exact .inl ⟨⟨hin, document, hload, hpackage⟩, by simp [hpackage]⟩
          | table pkg =>
              cases hname : pkg.name with
              | none => exact .inr (.inl (by simp [hpackage, hname]))
              | some name =>
                  by_cases hempty : name = ""
                  · exact .inr (.inl (by simp [hpackage, hname, hempty]))
                  · refine .inr (.inr ⟨pkg, name, ⟨hin, document, hload, hpackage⟩, hname, hempty, ?_⟩)
                    simp [hpackage, hname, hempty]

theorem declared_error {manifest : Manifest} {raised : Raised} (h : declared root wsVersion manifest = .error raised) :
    Malformed root manifest ∧ raised = .attribute := by
  obtain ⟨hbad, hd⟩ | hd | ⟨_, _, _, _, _, hd⟩ := declared_cases root wsVersion manifest
  · exact ⟨hbad, (Except.error.inj (h.symm.trans hd))⟩
  · cases h.symm.trans hd
  · cases h.symm.trans hd

theorem declared_malformed {manifest : Manifest} (h : Malformed root manifest) :
    declared root wsVersion manifest = .error .attribute := by
  obtain ⟨hin, document, hload, hpackage⟩ := h
  simp [declared, hin, hload, hpackage]

theorem declared_table {manifest : Manifest} {pkg : Package} (h : Declares root manifest pkg) {name : String}
    (hname : pkg.name = some name) (hne : name ≠ "") :
    declared root wsVersion manifest = .ok (some (name, resolve wsVersion pkg.version, manifest.posix)) := by
  obtain ⟨hin, document, hload, hpackage⟩ := h
  simp [declared, hin, hload, hpackage, hname, hne]

theorem declared_some {manifest : Manifest} {name : String} {entry : Option String × String}
    (h : declared root wsVersion manifest = .ok (some (name, entry))) :
    ∃ pkg, Declares root manifest pkg ∧ pkg.name = some name ∧
      entry = (resolve wsVersion pkg.version, manifest.posix) := by
  obtain ⟨_, hd⟩ | hd | ⟨pkg, _, hdeclares, hname, _, hd⟩ := declared_cases root wsVersion manifest
  · cases h.symm.trans hd
  · cases h.symm.trans hd
  · cases h.symm.trans hd
    exact ⟨pkg, hdeclares, hname, rfl⟩

def met (root : Root) (wsVersion : Option String) (walk : List Manifest) : List (String × Option String × String) :=
  walk.filterMap fun manifest => (declared root wsVersion manifest).toOption.join

theorem mem_met {walk : List Manifest} {name : String} {entry : Option String × String} (hne : name ≠ "") :
    (name, entry) ∈ met root wsVersion walk ↔
      ∃ manifest ∈ walk, ∃ pkg, Declares root manifest pkg ∧ pkg.name = some name ∧
        entry = (resolve wsVersion pkg.version, manifest.posix) := by
  simp only [met, List.mem_filterMap]
  constructor
  · rintro ⟨manifest, hmem, hjoin⟩
    cases hd : declared root wsVersion manifest with
    | error raised =>
        rw [hd] at hjoin
        cases hjoin
    | ok found =>
        rw [hd] at hjoin
        exact ⟨manifest, hmem, declared_some (hd.trans (congrArg Except.ok hjoin))⟩
  · rintro ⟨manifest, hmem, pkg, hdeclares, hname, rfl⟩
    refine ⟨manifest, hmem, ?_⟩
    rw [declared_table hdeclares hname hne]
    rfl

section

variable {walk : List Manifest}

theorem manifestVersions_raised {raised : Raised} (h : workspaceInheritedVersion root walk = .error raised) :
    manifestVersions root walk = .error raised := by
  rw [manifestVersions, h]
  rfl

theorem manifestVersions_malformed (h : workspaceInheritedVersion root walk = .ok wsVersion)
    {manifest : Manifest} (hmem : manifest ∈ walk) (hbad : Malformed root manifest) :
    manifestVersions root walk = .error .attribute := by
  have hloop : walk.mapM (declared root wsVersion) = .error .attribute :=
    Scan.mapM_error hmem (declared_malformed hbad) fun _ _ _ he => (declared_error he).2
  rw [manifestVersions, h]
  change (do let found ← walk.mapM (declared root wsVersion); pure (Dict.group found.reduceOption)) = _
  rw [hloop]
  rfl

theorem manifestVersions_ok (h : workspaceInheritedVersion root walk = .ok wsVersion)
    (hgood : ∀ manifest ∈ walk, ¬Malformed root manifest) :
    manifestVersions root walk = .ok (Dict.group (met root wsVersion walk)) := by
  have hloop : walk.mapM (declared root wsVersion) =
      .ok (walk.map fun manifest => (declared root wsVersion manifest).toOption.join) := by
    apply Scan.mapM_ok
    intro manifest hmem
    cases hd : declared root wsVersion manifest with
    | error raised => exact absurd (declared_error hd).1 (hgood manifest hmem)
    | ok found => rfl
  rw [manifestVersions, h]
  change (do let found ← walk.mapM (declared root wsVersion); pure (Dict.group found.reduceOption)) = _
  rw [hloop]
  change Except.ok (Dict.group ((walk.map _).filterMap id)) = _
  rw [List.filterMap_map]
  rfl

theorem manifestVersions_cases (root : Root) (walk : List Manifest) :
    (∃ raised, workspaceInheritedVersion root walk = .error raised ∧ manifestVersions root walk = .error raised) ∨
      (∃ wsVersion, workspaceInheritedVersion root walk = .ok wsVersion ∧
        (∃ manifest ∈ walk, Malformed root manifest) ∧ manifestVersions root walk = .error .attribute) ∨
      ∃ wsVersion, workspaceInheritedVersion root walk = .ok wsVersion ∧
        (∀ manifest ∈ walk, ¬Malformed root manifest) ∧
        manifestVersions root walk = .ok (Dict.group (met root wsVersion walk)) := by
  cases hws : workspaceInheritedVersion root walk with
  | error raised => exact .inl ⟨raised, rfl, manifestVersions_raised hws⟩
  | ok wsVersion =>
      by_cases hmal : ∃ manifest ∈ walk, Malformed root manifest
      · obtain ⟨manifest, hmem, hbad⟩ := hmal
        exact .inr (.inl ⟨wsVersion, rfl, ⟨manifest, hmem, hbad⟩, manifestVersions_malformed hws hmem hbad⟩)
      · have hgood : ∀ manifest ∈ walk, ¬Malformed root manifest := fun manifest hmem hbad => hmal ⟨manifest, hmem, hbad⟩
        exact .inr (.inr ⟨wsVersion, rfl, hgood, manifestVersions_ok hws hgood⟩)

end

theorem one_version {entries : List (Option String × String)} (hne : entries ≠ [])
    (hnone : none ∉ (entries.map (·.1)).dedup) (hlen : ¬(entries.map (·.1)).dedup.length > 1) :
    ∃ v, (entries.map (·.1)).dedup = [some v] ∧ ∀ entry ∈ entries, entry.1 = some v := by
  have hmem (entry) (hentry : entry ∈ entries) : entry.1 ∈ (entries.map (·.1)).dedup :=
    List.mem_dedup.mpr (List.mem_map_of_mem hentry)
  obtain ⟨entry, hentry⟩ := List.exists_mem_of_ne_nil entries hne
  have hpos := List.length_pos_of_mem (hmem entry hentry)
  obtain ⟨x, hx⟩ := List.length_eq_one_iff.mp (show (entries.map (·.1)).dedup.length = 1 by omega)
  rw [hx] at hnone hmem ⊢
  cases x with
  | none => exact absurd (List.mem_singleton_self none) hnone
  | some v => exact ⟨v, rfl, fun other hother => List.mem_singleton.mp (hmem other hother)⟩

theorem versions_single {entries : List (Option String × String)} {v : String} (hne : entries ≠ [])
    (h : ∀ entry ∈ entries, entry.1 = some v) : (entries.map (·.1)).dedup = [some v] := by
  have hrep : entries.map (·.1) = List.replicate entries.length (some v) := by
    apply List.eq_replicate_iff.mpr
    constructor
    · simp
    · intro x hx
      obtain ⟨entry, hentry, rfl⟩ := List.mem_map.mp hx
      exact h entry hentry
  rw [hrep, List.replicate_dedup (by simpa using hne)]

/-- A name is checked exactly when it has manifests and each resolves to the
version of the lock. -/
theorem inspect_checked {manifests : AList fun _ : String => List (Option String × String)} {name : String}
    {lockVersion : Option LockVersion} :
    (inspect manifests name lockVersion).mismatch? = none ↔
      (manifests.lookup name).getD [] ≠ [] ∧
        ∀ entry ∈ (manifests.lookup name).getD [], ∃ v, entry.1 = some v ∧ lockVersion = some (.text v) := by
  unfold inspect
  dsimp only
  generalize (manifests.lookup name).getD [] = entries
  constructor
  · intro h
    split_ifs at h with hnil hnone hlen hlock
    case neg =>
      refine ⟨hnil, ?_⟩
      intro entry hentry
      obtain ⟨v, hv, hall⟩ := one_version hnil hnone hlen
      rw [hv] at hlock
      exact ⟨v, hall entry hentry, (not_ne_iff.mp hlock).symm⟩
    all_goals cases h
  · rintro ⟨hne, hall⟩
    obtain ⟨entry, hentry⟩ := List.exists_mem_of_ne_nil entries hne
    obtain ⟨v, _, rfl⟩ := hall entry hentry
    have hsingle : (entries.map (·.1)).dedup = [some v] := by
      apply versions_single hne
      intro other hother
      obtain ⟨w, hw, hlock⟩ := hall other hother
      cases hlock
      exact hw
    rw [hsingle]
    simp [hne, Finding.mismatch?]

theorem verdict_zero {findings : List Finding} :
    (verdict findings).code = 0 ↔ ∀ finding ∈ findings, finding.mismatch? = none := by
  rw [← List.filterMap_eq_nil_iff]
  unfold verdict
  dsimp only
  split_ifs <;> simp_all

theorem verdict_code (findings : List Finding) : (verdict findings).code = 0 ∨ (verdict findings).code = 1 := by
  unfold verdict
  dsimp only
  split_ifs <;> simp

theorem findings_checked {locals : AList fun _ : String => Option LockVersion}
    {manifests : AList fun _ : String => List (Option String × String)} :
    (∀ finding ∈ findings locals manifests, finding.mismatch? = none) ↔
      ∀ name version, locals.lookup name = some version → (inspect manifests name version).mismatch? = none := by
  unfold findings
  simp only [List.mem_map, List.mem_insertionSort]
  constructor
  · intro h name version hlookup
    exact h _ ⟨(name, version), ⟨⟨name, version⟩, AList.mem_lookup_iff.mp hlookup, rfl⟩, rfl⟩
  · rintro h _ ⟨_, ⟨⟨name, version⟩, hmem, rfl⟩, rfl⟩
    exact h name version (AList.mem_lookup_iff.mpr hmem)

/-- Some manifest outside target directories declares the name, and each one that
does resolves to the version of the lock. -/
def Matched (root : Root) (walk : List Manifest) (wsVersion : Option String) (name : String)
    (version : Option LockVersion) : Prop :=
  (∃ manifest ∈ walk, ∃ pkg, Declares root manifest pkg ∧ pkg.name = some name) ∧
    ∀ manifest ∈ walk, ∀ pkg, Declares root manifest pkg → pkg.name = some name →
      ∃ v, resolve wsVersion pkg.version = some v ∧ version = some (.text v)

def versionsOf (data : List LockEntry) (name : String) : List (Option LockVersion) :=
  data.filterMap fun pkg => if pkg.localName = some name then some pkg.version else none

section

variable {walk : List Manifest} {data : List LockEntry} {name : String} {version : Option LockVersion}

theorem inspect_met (hne : name ≠ "") :
    (inspect (Dict.group (met root wsVersion walk)) name version).mismatch? = none ↔
      Matched root walk wsVersion name version := by
  rw [inspect_checked, Dict.lookup_group, Matched]
  constructor
  · rintro ⟨hsome, hall⟩
    constructor
    · obtain ⟨entry, hentry⟩ := List.exists_mem_of_ne_nil _ hsome
      obtain ⟨manifest, hmem, pkg, hdeclares, hname, _⟩ := (mem_met hne).mp (Dict.mem_valuesOf.mp hentry)
      exact ⟨manifest, hmem, pkg, hdeclares, hname⟩
    · intro manifest hmem pkg hdeclares hname
      exact hall _ (Dict.mem_valuesOf.mpr ((mem_met hne).mpr ⟨manifest, hmem, pkg, hdeclares, hname, rfl⟩))
  · rintro ⟨⟨manifest, hmem, pkg, hdeclares, hname⟩, hall⟩
    constructor
    · apply List.ne_nil_of_mem
      exact Dict.mem_valuesOf.mpr ((mem_met hne).mpr ⟨manifest, hmem, pkg, hdeclares, hname, rfl⟩)
    · intro entry hentry
      obtain ⟨other, hother, pkg', hdeclares', hname', rfl⟩ := (mem_met hne).mp (Dict.mem_valuesOf.mp hentry)
      exact hall other hother pkg' hdeclares' hname'

theorem localName_ne {pkg : LockEntry} (h : pkg.localName = some name) : name ≠ "" := by
  unfold LockEntry.localName at h
  split at h
  · split_ifs at h with hlocal
    cases h
    exact hlocal.1
  · cases h

theorem mem_versionsOf :
    version ∈ versionsOf data name ↔ ∃ pkg ∈ data, pkg.localName = some name ∧ pkg.version = version := by
  simp only [versionsOf, List.mem_filterMap]
  constructor
  · rintro ⟨pkg, hmem, hif⟩
    split_ifs at hif with hlocal
    exact ⟨pkg, hmem, hlocal, Option.some.inj hif⟩
  · rintro ⟨pkg, hmem, hlocal, rfl⟩
    exact ⟨pkg, hmem, if_pos hlocal⟩

/-- The lock is read by name, so a name keeps the last of its entries only. -/
theorem lookup_localLockVersions :
    (localLockVersions data).lookup name = (versionsOf data name).getLast? := by
  rw [localLockVersions, Dict.lookup_assign, Dict.valuesOf, List.filterMap_filterMap, versionsOf]
  congr 2
  funext pkg
  cases pkg.localName <;> simp

end

def Passes (data : List LockEntry) (root : Root) (walk : List Manifest) : Prop :=
  (main (some (.ok data)) root walk).map Outcome.code = .ok 0

def Verified (data : List LockEntry) (root : Root) (walk : List Manifest) : Prop :=
  ∃ wsVersion, workspaceInheritedVersion root walk = .ok wsVersion ∧
    ∀ pkg ∈ data, ∀ name, pkg.localName = some name → Matched root walk wsVersion name pkg.version

/-- Nothing raises, and the last local entry of every name is matched. -/
def LastMatched (data : List LockEntry) (root : Root) (walk : List Manifest) : Prop :=
  ∃ wsVersion, workspaceInheritedVersion root walk = .ok wsVersion ∧
    (∀ manifest ∈ walk, ¬Malformed root manifest) ∧
    ∀ name version, (versionsOf data name).getLast? = some version → Matched root walk wsVersion name version

def OneVersion (data : List LockEntry) : Prop :=
  ∀ pkg ∈ data, ∀ pkg' ∈ data, ∀ name, pkg.localName = some name → pkg'.localName = some name →
    pkg.version = pkg'.version

section

variable {data : List LockEntry} {walk : List Manifest}

theorem verdict_met {wsVersion : Option String} :
    (verdict (findings (localLockVersions data) (Dict.group (met root wsVersion walk)))).code = 0 ↔
      ∀ name version, (versionsOf data name).getLast? = some version → Matched root walk wsVersion name version := by
  rw [verdict_zero, findings_checked]
  simp only [lookup_localLockVersions]
  apply forall₃_congr
  intro name version hlast
  obtain ⟨pkg, _, hlocal, _⟩ := mem_versionsOf.mp (List.mem_of_getLast? hlast)
  exact inspect_met (localName_ne hlocal)

theorem passes_iff : Passes data root walk ↔ LastMatched data root walk := by
  unfold Passes main
  dsimp only
  obtain ⟨raised, hws, hm⟩ | ⟨wsVersion, hws, ⟨manifest, hmem, hbad⟩, hm⟩ | ⟨wsVersion, hws, hgood, hm⟩ :=
    manifestVersions_cases root walk
  · rw [hm]
    apply iff_of_false
    · intro h
      cases h
    · rintro ⟨_, hok, _⟩
      cases hws.symm.trans hok
  · rw [hm]
    apply iff_of_false
    · intro h
      cases h
    · rintro ⟨_, _, hgood, _⟩
      exact hgood manifest hmem hbad
  · rw [hm]
    change Except.ok _ = Except.ok 0 ↔ _
    rw [Except.ok.injEq, verdict_met]
    constructor
    · intro hall
      exact ⟨wsVersion, hws, hgood, hall⟩
    · rintro ⟨_, hok, _, hall⟩
      cases hws.symm.trans hok
      exact hall

theorem LastMatched.verified (h : LastMatched data root walk) (hone : OneVersion data) : Verified data root walk := by
  obtain ⟨wsVersion, hws, _, hall⟩ := h
  refine ⟨wsVersion, hws, ?_⟩
  intro pkg hpkg name hlocal
  have hmem : pkg.version ∈ versionsOf data name := mem_versionsOf.mpr ⟨pkg, hpkg, hlocal, rfl⟩
  obtain ⟨version, hlast⟩ := Option.isSome_iff_exists.mp (List.getLast?_isSome.mpr (List.ne_nil_of_mem hmem))
  obtain ⟨last, hlastmem, hlastlocal, rfl⟩ := mem_versionsOf.mp (List.mem_of_getLast? hlast)
  rw [hone pkg hpkg last hlastmem name hlocal hlastlocal]
  exact hall name last.version hlast

theorem Matched.version_eq {wsVersion : Option String} {name : String} {version version' : Option LockVersion}
    (h : Matched root walk wsVersion name version) (h' : Matched root walk wsVersion name version') :
    version = version' := by
  obtain ⟨manifest, hmem, pkg, hdeclares, hname⟩ := h.1
  obtain ⟨v, hv, rfl⟩ := h.2 manifest hmem pkg hdeclares hname
  obtain ⟨v', hv', rfl⟩ := h'.2 manifest hmem pkg hdeclares hname
  rw [Option.some.inj (hv.symm.trans hv')]

theorem Verified.oneVersion (h : Verified data root walk) : OneVersion data := by
  obtain ⟨wsVersion, _, hall⟩ := h
  intro pkg hpkg pkg' hpkg' name hlocal hlocal'
  exact (hall pkg hpkg name hlocal).version_eq (hall pkg' hpkg' name hlocal')

/-- What passes is verified, except where the last entry of every name is matched
and an earlier one of some name has another version. -/
theorem pass_verified_iff :
    (Passes data root walk → Verified data root walk) ↔ (LastMatched data root walk → OneVersion data) := by
  constructor
  · intro h hlast
    exact (h (passes_iff.mpr hlast)).oneVersion
  · intro h hpass
    have hlast := passes_iff.mp hpass
    exact hlast.verified (h hlast)

end

def here : Root := ⟨["/", "repo"], "/repo"⟩

def localEntry (name version : String) : LockEntry := ⟨some name, some (.text version), none⟩

def packageAt (parts : List String) (name : String) (version : VersionKey) : Manifest :=
  ⟨parts, .ok ⟨.missing, .table ⟨some name, some version⟩⟩⟩

def sharedName : List LockEntry := [localEntry "foo" "1.0.0", localEntry "foo" "2.0.0"]

def member : Manifest := packageAt ["Cargo.toml"] "foo" (.text "2.0.0")

/-- The entry that no manifest matches passes. -/
theorem hidden_entry_passes : Passes sharedName here [member] ∧ ¬Verified sharedName here [member] := by
  constructor
  · unfold Passes
    decide +kernel
  · intro h
    have hone := h.oneVersion (localEntry "foo" "1.0.0") (by simp [sharedName]) (localEntry "foo" "2.0.0")
      (by simp [sharedName]) "foo" (by decide) (by decide)
    exact absurd hone (by decide)

end DigStore.LockGate
