import DigStore.Library.Text
import DigStore.LockGate
import Mathlib.Data.String.Basic

namespace DigStore.LockReport

open Library Lockfile LockGate

variable {root : Root} {walk : List Manifest} {data data' : List LockEntry}
  {manifests : AList fun _ : String => List (Option String × String)} {name text : String}
  {version : Option LockVersion}

/-- The names of the lock's local packages in their order, each with the version that
the lock is taken to give it. -/
def items (data : List LockEntry) : List (String × Option LockVersion) := Dict.sorted (localLockVersions data)

theorem findings_items (data : List LockEntry)
    (manifests : AList fun _ : String => List (Option String × String)) :
    findings (localLockVersions data) manifests = (items data).map fun item => inspect manifests item.1 item.2 :=
  rfl

theorem mem_items : (name, version) ∈ items data ↔ (versionsOf data name).getLast? = some version := by
  rw [items, Dict.mem_sorted, lookup_localLockVersions]

theorem items_ne {item : String × Option LockVersion} (h : item ∈ items data) : item.1 ≠ "" := by
  obtain ⟨pkg, -, hlocal, -⟩ := mem_versionsOf.mp (List.mem_of_getLast? (mem_items.mp h))
  exact localName_ne hlocal

theorem inspect_shows (h : (inspect manifests name version).checked? = some text) :
    text = s!"{name}@{shown version}" := by
  unfold inspect at h
  dsimp only at h
  generalize (manifests.lookup name).getD [] = entries at h
  split_ifs at h with hnil hnone hlen hlock
  case neg =>
    cases h
    obtain ⟨v, hv, -⟩ := one_version hnil hnone hlen
    rw [not_ne_iff, hv] at hlock
    rw [hv, ← hlock]
    rfl
  all_goals cases h

def listed (texts : List String) : String := ", ".intercalate texts

def pathsOf (entries : List (Option String × String)) : String := listed (entries.map (·.2))

/-- The line for a name at this version of the lock, by the versions and paths of the
manifests that declare it. -/
inductive Line (name : String) (version : Option LockVersion) (entries : List (Option String × String)) :
    String → Prop
  | missing (h : entries = []) : Line name version entries
      (s!"  {name}: present in Cargo.lock as a local package (version {shown version}) " ++
        "but no matching [package] Cargo.toml was found in the tree")
  | unresolved (h : ∃ entry ∈ entries, entry.1 = none) : Line name version entries
      (s!"  {name} ({pathsOf entries}): could not resolve a version from Cargo.toml " ++
        s!"(Cargo.lock={shown version})")
  | ambiguous {found} (hall : ∀ entry ∈ entries, entry.1 ≠ none)
      (hfound : ∀ v, v ∈ found ↔ ∃ entry ∈ entries, entry.1 = some v) (hsorted : found.Pairwise (· < ·))
      (hmany : 1 < found.length) : Line name version entries
      (s!"  {name} ({pathsOf entries}): AMBIGUOUS - multiple Cargo.toml declare this name at " ++
        s!"differing versions [{listed found}]; cannot verify Cargo.lock={shown version}")
  | differs {v} (hne : entries ≠ []) (h : ∀ entry ∈ entries, entry.1 = some v) (hv : version ≠ some (.text v)) :
      Line name version entries s!"  {name} ({pathsOf entries}): Cargo.toml={v} but Cargo.lock={shown version}"

theorem Line.begins {entries : List (Option String × String)} (h : Line name version entries text) :
    Text.Begins ("  " ++ name) text := by
  cases h
  all_goals repeat first | exact Text.Begins.refl _ | apply Text.Begins.append

theorem found_versions {entries : List (Option String × String)} {found : List String}
    (h : found = (entries.map (·.1)).dedup.reduceOption.insertionSort (· ≤ ·)) :
    (∀ v, v ∈ found ↔ ∃ entry ∈ entries, entry.1 = some v) ∧ found.Pairwise (· < ·) := by
  subst h
  constructor
  · intro v
    rw [List.mem_insertionSort, List.reduceOption_mem_iff, List.mem_dedup, List.mem_map]
  · have hnodup : (entries.map (·.1)).dedup.reduceOption.Nodup := by
      apply (List.nodup_dedup _).filterMap
      rintro a a' v ha ha'
      exact ha.trans ha'.symm
    have hdistinct := (List.perm_insertionSort (· ≤ ·) _).nodup_iff.mpr hnodup
    exact (List.sortedLE_insertionSort.sortedLT_of_nodup hdistinct).pairwise

theorem inspect_line (h : (inspect manifests name version).mismatch? = some text) :
    Line name version ((manifests.lookup name).getD []) text := by
  unfold inspect at h
  dsimp only at h
  generalize (manifests.lookup name).getD [] = entries at h
  split_ifs at h with hnil hnone hlen hlock
  · cases h
    exact .missing hnil
  · cases h
    obtain ⟨entry, hentry, he⟩ := List.mem_map.mp (List.mem_dedup.mp hnone)
    exact .unresolved ⟨entry, hentry, he⟩
  · cases h
    have hall (entry) (hentry : entry ∈ entries) : entry.1 ≠ none := by
      intro he
      exact hnone (List.mem_dedup.mpr (List.mem_map.mpr ⟨entry, hentry, he⟩))
    obtain ⟨hfound, hsorted⟩ := @found_versions entries _ rfl
    refine .ambiguous hall hfound hsorted ?_
    have hsome : ∀ x ∈ (entries.map (·.1)).dedup, x.isSome := by
      intro x hx
      rw [Option.isSome_iff_ne_none]
      rintro rfl
      exact hnone hx
    rw [List.length_insertionSort, List.reduceOption_length_eq_iff.mpr hsome]
    exact hlen
  · cases h
    obtain ⟨v, hv, hall⟩ := one_version hnil hnone hlen
    rw [hv] at hlock ⊢
    exact .differs hnil hall (Ne.symm hlock)
  · cases h

theorem inspect_found (finding : Finding) (h : finding.mismatch? = none) : ∃ text, finding.checked? = some text := by
  cases finding with
  | mismatch text => cases h
  | checked text => exact ⟨text, rfl⟩

def nothing : Outcome := ⟨0, ["WARN: Cargo.lock has no local (source-less) packages to check."]⟩

def passed (items : List (String × Option LockVersion)) : Outcome :=
  ⟨0, [s!"OK: Cargo.lock matches Cargo.toml for {items.length} local package(s): " ++
    ", ".intercalate (items.map fun item => s!"{item.1}@{shown item.2}")]⟩

def failed (lines : List String) : Outcome :=
  ⟨1, ["Cargo.lock local-package version does NOT match Cargo.toml:", "\n".intercalate lines,
    "\nFix: run `cargo build` (or `cargo update -p <name>`) to resync Cargo.lock, " ++
      "then commit the updated Cargo.lock."]⟩

inductive Reported (items : List (String × Option LockVersion)) (Good : String × Option LockVersion → Prop)
    (declaring : String → List (Option String × String)) : Outcome → Prop
  | nothing (h : items = []) : Reported items Good declaring nothing
  | passed (hne : items ≠ []) (h : ∀ item ∈ items, Good item) : Reported items Good declaring (passed items)
  | failed (bad lines) (hne : bad ≠ []) (hsub : bad.Sublist items)
      (hbad : ∀ item ∈ items, item ∈ bad ↔ ¬Good item)
      (hlines : List.Forall₂ (fun item line => Line item.1 item.2 (declaring item.1) line ∧
        Text.Begins ("  " ++ item.1) line) bad lines) : Reported items Good declaring (failed lines)

theorem checked_items {items : List (String × Option LockVersion)}
    (h : ∀ item ∈ items, (inspect manifests item.1 item.2).mismatch? = none) :
    (items.map fun item => inspect manifests item.1 item.2).filterMap Finding.checked? =
      items.map fun item => s!"{item.1}@{shown item.2}" := by
  rw [List.filterMap_map, ← List.filterMap_eq_map]
  apply List.filterMap_congr
  intro item hitem
  obtain ⟨text, htext⟩ := inspect_found _ (h item hitem)
  rw [Function.comp_apply, Function.comp_apply, htext, inspect_shows htext]

theorem verdict_reported (items : List (String × Option LockVersion))
    (manifests : AList fun _ : String => List (Option String × String)) :
    Reported items (fun item => (inspect manifests item.1 item.2).mismatch? = none)
      (fun name => (manifests.lookup name).getD [])
      (verdict (items.map fun item => inspect manifests item.1 item.2)) := by
  have hmismatches : (items.map fun item => inspect manifests item.1 item.2).filterMap Finding.mismatch? =
      items.filterMap fun item => (inspect manifests item.1 item.2).mismatch? := List.filterMap_map
  unfold verdict
  dsimp only
  rw [hmismatches]
  split_ifs with hbad hempty
  · apply Reported.failed (items.filter fun item => (inspect manifests item.1 item.2).mismatch?.isSome) _ _
      List.filter_sublist
    · intro item hitem
      rw [List.mem_filter, Option.isSome_iff_ne_none]
      exact and_iff_right hitem
    · apply Scan.forall₂_filterMap
      intro item _ text htext
      have hline := inspect_line htext
      exact ⟨hline, hline.begins⟩
    · intro hnone
      apply hbad
      rw [List.filterMap_eq_nil_iff]
      intro item hitem
      have hall := List.filter_eq_nil_iff.mp hnone item hitem
      rwa [Option.not_isSome_iff_eq_none] at hall
  · have hall := List.filterMap_eq_nil_iff.mp (not_ne_iff.mp hbad)
    rw [checked_items hall] at hempty
    exact .nothing (List.map_eq_nil_iff.mp hempty)
  · have hall := List.filterMap_eq_nil_iff.mp (not_ne_iff.mp hbad)
    rw [checked_items hall] at hempty ⊢
    rw [List.length_map]
    exact .passed (fun hnil => hempty (List.map_eq_nil_iff.mpr hnil)) hall

theorem main_ok {outcome : Outcome} (h : main (some (.ok data)) root walk = .ok outcome) :
    ∃ wsVersion, workspaceInheritedVersion root walk = .ok wsVersion ∧
      outcome = verdict (findings (localLockVersions data) (Dict.group (met root wsVersion walk))) := by
  unfold main at h
  dsimp only at h
  obtain ⟨raised, -, hm⟩ | ⟨_, -, -, hm⟩ | ⟨wsVersion, hws, -, hm⟩ := manifestVersions_cases root walk
  · rw [hm] at h
    cases h
  · rw [hm] at h
    cases h
  · rw [hm] at h
    cases h
    exact ⟨wsVersion, hws, rfl⟩

theorem Reported.congr {items : List (String × Option LockVersion)} {Good Good' : String × Option LockVersion → Prop}
    {declaring : String → List (Option String × String)} {outcome : Outcome}
    (h : Reported items Good declaring outcome) (hg : ∀ item ∈ items, Good item ↔ Good' item) :
    Reported items Good' declaring outcome := by
  cases h with
  | nothing h => exact .nothing h
  | passed hne h => exact .passed hne fun item hitem => (hg item hitem).mp (h item hitem)
  | failed bad lines hne hsub hbad hlines =>
      refine .failed bad lines hne hsub ?_ hlines
      intro item hitem
      rw [hbad item hitem, hg item hitem]

def declaring (root : Root) (walk : List Manifest) (wsVersion : Option String) (name : String) :
    List (Option String × String) :=
  Dict.valuesOf name (met root wsVersion walk)

/-- A run that raises nothing looks at every name once, in the order of the names, and
reports each that no manifests match; if there is none, it lists what it checked at
the versions of the lock. -/
theorem run_reported (data : List LockEntry) (root : Root) (walk : List Manifest) (outcome : Outcome)
    (h : main (some (.ok data)) root walk = .ok outcome) :
    ∃ wsVersion items, workspaceInheritedVersion root walk = .ok wsVersion ∧
      items.Pairwise (fun a b => a.1 < b.1) ∧
      (∀ name version, (name, version) ∈ items ↔ (versionsOf data name).getLast? = some version) ∧
      (∀ item ∈ items, ∀ entry, entry ∈ declaring root walk wsVersion item.1 ↔
        ∃ manifest ∈ walk, ∃ pkg, Declares root manifest pkg ∧ pkg.name = some item.1 ∧
          entry = (resolve wsVersion pkg.version, manifest.posix)) ∧
      Reported items (fun item => Matched root walk wsVersion item.1 item.2) (declaring root walk wsVersion)
        outcome := by
  obtain ⟨wsVersion, hws, rfl⟩ := main_ok h
  refine ⟨wsVersion, items data, hws, Dict.sorted_keys _, fun _ _ => mem_items, ?_, ?_⟩
  · intro item hitem entry
    rw [declaring, Dict.mem_valuesOf]
    exact mem_met (items_ne hitem)
  · have hdeclaring : declaring root walk wsVersion =
        fun name => ((Dict.group (met root wsVersion walk)).lookup name).getD [] := by
      funext name
      rw [Dict.lookup_group, declaring]
    rw [findings_items, hdeclaring]
    apply (verdict_reported _ _).congr
    intro item hitem
    exact inspect_met (items_ne hitem)

theorem run_reported_member : ∃ outcome, main (some (.ok [localEntry "foo" "2.0.0"])) here [member] = .ok outcome ∧
    ∃ wsVersion items, workspaceInheritedVersion here [member] = .ok wsVersion ∧
      items.Pairwise (fun a b => a.1 < b.1) ∧
      (∀ name version, (name, version) ∈ items ↔
        (versionsOf [localEntry "foo" "2.0.0"] name).getLast? = some version) ∧
      (∀ item ∈ items, ∀ entry, entry ∈ declaring here [member] wsVersion item.1 ↔
        ∃ manifest ∈ [member], ∃ pkg, Declares here manifest pkg ∧ pkg.name = some item.1 ∧
          entry = (resolve wsVersion pkg.version, manifest.posix)) ∧
      Reported items (fun item => Matched here [member] wsVersion item.1 item.2) (declaring here [member] wsVersion)
        outcome := by
  refine ⟨_, rfl, ?_⟩
  exact run_reported [localEntry "foo" "2.0.0"] here [member] _ rfl

/-- The manifests that a run can notice: the one at the root, and those outside target
directories that parse. -/
def seen (root : Root) (manifest : Manifest) : Bool :=
  decide (manifest.parts = ["Cargo.toml"]) || (!inTarget root manifest && manifest.content.toOption.isSome)

theorem seen_root {manifest : Manifest} (h : manifest.parts = ["Cargo.toml"]) : seen root manifest = true := by
  simp [seen, h]

theorem unseen {manifest : Manifest} (h : seen root manifest = false) :
    inTarget root manifest = true ∨ ∃ error, manifest.content = .error error := by
  rw [seen, Bool.or_eq_false_iff] at h
  cases hin : inTarget root manifest with
  | true => exact .inl rfl
  | false =>
      cases hload : manifest.content with
      | error error => exact .inr ⟨error, rfl⟩
      | ok document => simp [hin, hload, Except.toOption] at h

theorem offered_unseen {manifest : Manifest} (h : seen root manifest = false) : offered root manifest = none := by
  unfold offered
  rcases unseen h with hin | ⟨error, hload⟩
  · rw [if_pos hin]
  · rw [hload, ite_self]

theorem declared_unseen {wsVersion : Option String} {manifest : Manifest} (h : seen root manifest = false) :
    declared root wsVersion manifest = .ok none := by
  unfold declared
  rcases unseen h with hin | ⟨error, hload⟩
  · rw [if_pos hin]
  · rw [hload, ite_self]

theorem rootContent_seen (root : Root) (walk : List Manifest) :
    rootContent (walk.filter (seen root)) = rootContent walk := by
  have hfind : (walk.filter (seen root)).find? (fun manifest => manifest.parts = ["Cargo.toml"]) =
      walk.find? fun manifest => manifest.parts = ["Cargo.toml"] := by
    rw [List.find?_filter]
    congr 1
    funext manifest
    by_cases hroot : manifest.parts = ["Cargo.toml"]
    · simp [hroot, seen_root hroot]
    · simp [hroot]
  rw [rootContent, hfind, rootContent]

theorem workspaceInheritedVersion_seen (root : Root) (walk : List Manifest) :
    workspaceInheritedVersion root (walk.filter (seen root)) = workspaceInheritedVersion root walk := by
  have hsearch : (walk.filter (seen root)).findSome? (offered root) = walk.findSome? (offered root) :=
    Scan.findSome?_filter fun _ _ => offered_unseen
  rw [workspaceInheritedVersion, rootContent_seen, hsearch, workspaceInheritedVersion]

theorem manifestVersions_seen (root : Root) (walk : List Manifest) :
    manifestVersions root (walk.filter (seen root)) = manifestVersions root walk := by
  rw [manifestVersions, manifestVersions, workspaceInheritedVersion_seen]
  cases workspaceInheritedVersion root walk with
  | error raised => rfl
  | ok wsVersion =>
      have hloop (walk : List Manifest) :
          (do let found ← walk.mapM (declared root wsVersion); pure (Dict.group found.reduceOption)) =
            ((walk.mapM (declared root wsVersion)).map List.reduceOption).map Dict.group := by
        cases walk.mapM (declared root wsVersion) <;> rfl
      have hfilter : ((walk.filter (seen root)).mapM (declared root wsVersion)).map List.reduceOption =
          (walk.mapM (declared root wsVersion)).map List.reduceOption := Scan.mapM_filter fun _ _ => declared_unseen
      exact (hloop _).trans ((congrArg _ hfilter).trans (hloop _).symm)

theorem main_seen (lock : Option (Except LoadError (List LockEntry))) (root : Root) (walk : List Manifest) :
    main lock root (walk.filter (seen root)) = main lock root walk := by
  unfold main
  rw [manifestVersions_seen]

theorem main_last (root : Root) (walk : List Manifest)
    (h : ∀ name, (versionsOf data name).getLast? = (versionsOf data' name).getLast?) :
    main (some (.ok data)) root walk = main (some (.ok data')) root walk := by
  have hitems : items data = items data' := by
    apply Dict.sorted_congr
    intro name
    rw [lookup_localLockVersions, lookup_localLockVersions, h]
  unfold main
  dsimp only
  simp only [findings_items, hitems]

theorem versionsOf_local (data : List LockEntry) (name : String) :
    versionsOf (data.filter fun pkg => pkg.localName.isSome) name = versionsOf data name := by
  rw [versionsOf, List.filterMap_filter, versionsOf]
  congr 1
  funext pkg
  cases pkg.localName <;> simp

theorem last_of_oneVersion (h : OneVersion data) : (versionsOf data name).getLast? = some version ↔
    ∃ pkg ∈ data, pkg.localName = some name ∧ pkg.version = version := by
  rw [← mem_versionsOf]
  constructor
  · exact List.mem_of_getLast?
  · intro hmem
    obtain ⟨last, hlast⟩ := Option.isSome_iff_exists.mp (List.getLast?_isSome.mpr (List.ne_nil_of_mem hmem))
    obtain ⟨pkg, hpkg, hlocal, rfl⟩ := mem_versionsOf.mp hmem
    obtain ⟨pkg', hpkg', hlocal', rfl⟩ := mem_versionsOf.mp (List.mem_of_getLast? hlast)
    rw [hlast, h pkg hpkg pkg' hpkg' name hlocal hlocal']

structure DependsOnly (root : Root) : Prop where
  seen : ∀ lock walk, main lock root (walk.filter (seen root)) = main lock root walk
  last : ∀ data data' walk, (∀ name, (versionsOf data name).getLast? = (versionsOf data' name).getLast?) →
    main (some (.ok data)) root walk = main (some (.ok data')) root walk
  locals : ∀ data walk, main (some (.ok (data.filter fun pkg => pkg.localName.isSome))) root walk =
    main (some (.ok data)) root walk
  same_set : ∀ data data' walk, OneVersion data → OneVersion data' →
    (∀ name version, (∃ pkg ∈ data, pkg.localName = some name ∧ pkg.version = version) ↔
      ∃ pkg ∈ data', pkg.localName = some name ∧ pkg.version = version) →
    main (some (.ok data)) root walk = main (some (.ok data')) root walk

/-- All that is printed stays the same without the manifests that are not seen and
without the entries that are not local, and whatever the order of a lock that names
one version of each. -/
theorem report_depends (root : Root) : DependsOnly root where
  seen lock walk := main_seen lock root walk
  last _ _ walk h := main_last root walk h
  locals data walk := main_last root walk fun name => by rw [versionsOf_local]
  same_set data data' walk hone hone' h := by
    apply main_last root walk
    intro name
    apply Option.ext
    intro version
    rw [last_of_oneVersion hone, last_of_oneVersion hone', h]

/-- All manifests of every local name resolve to one version, and nothing raises. -/
def Resolvable (data : List LockEntry) (root : Root) (walk : List Manifest) : Prop :=
  ∃ wsVersion, workspaceInheritedVersion root walk = .ok wsVersion ∧
    (∀ manifest ∈ walk, ¬Malformed root manifest) ∧
    ∀ pkg ∈ data, ∀ name, pkg.localName = some name → ∃ v, Matched root walk wsVersion name (some (.text v))

def SameNames (data data' : List LockEntry) : Prop := data'.map LockEntry.localName = data.map LockEntry.localName

theorem SameNames.find (h : SameNames data data') {pkg : LockEntry} (hpkg : pkg ∈ data) :
    ∃ pkg' ∈ data', pkg'.localName = pkg.localName := by
  have hmem : pkg.localName ∈ data'.map LockEntry.localName := by
    rw [h]
    exact List.mem_map_of_mem hpkg
  exact List.mem_map.mp hmem

/-- A local package at the version that is chosen for its name. -/
def resync (choice : String → String) (pkg : LockEntry) : LockEntry :=
  match pkg.localName with
  | some name => { pkg with version := some (.text (choice name)) }
  | none => pkg

theorem resync_localName (choice : String → String) (pkg : LockEntry) :
    (resync choice pkg).localName = pkg.localName := by
  unfold resync
  split <;> rfl

theorem resync_version (choice : String → String) {pkg : LockEntry} (h : pkg.localName = some name) :
    (resync choice pkg).version = some (.text (choice name)) := by
  rw [resync, h]

theorem matched_text {wsVersion : Option String} (h : Matched root walk wsVersion name version) :
    ∃ v, version = some (.text v) := by
  obtain ⟨manifest, hmem, pkg, hdeclares, hname⟩ := h.1
  obtain ⟨v, -, hv⟩ := h.2 manifest hmem pkg hdeclares hname
  exact ⟨v, hv⟩

theorem resync_matched {wsVersion : Option String} {choice : String → String}
    (h : ∀ pkg ∈ data, ∀ name, pkg.localName = some name →
      Matched root walk wsVersion name (some (.text (choice name)))) :
    ∀ pkg ∈ data.map (resync choice), ∀ name, pkg.localName = some name →
      Matched root walk wsVersion name pkg.version := by
  intro pkg' hpkg' name hlocal
  obtain ⟨pkg, hpkg, rfl⟩ := List.mem_map.mp hpkg'
  rw [resync_localName] at hlocal
  rw [resync_version choice hlocal]
  exact h pkg hpkg name hlocal

/-- The versions are chosen by name, so entries that share one get the same. -/
theorem exists_choice {wsVersion : Option String}
    (h : ∀ pkg ∈ data, ∀ name, pkg.localName = some name → ∃ v, Matched root walk wsVersion name (some (.text v))) :
    ∃ choice : String → String, ∀ pkg ∈ data, ∀ name, pkg.localName = some name →
      Matched root walk wsVersion name (some (.text (choice name))) := by
  have hname : ∀ name, ∃ v, ∀ pkg ∈ data, pkg.localName = some name →
      Matched root walk wsVersion name (some (.text v)) := by
    intro name
    by_cases hlocal : ∃ pkg ∈ data, pkg.localName = some name
    · obtain ⟨pkg, hpkg, hlocal⟩ := hlocal
      obtain ⟨v, hv⟩ := h pkg hpkg name hlocal
      exact ⟨v, fun _ _ _ => hv⟩
    · exact ⟨"", fun pkg hpkg hpkgLocal => absurd ⟨pkg, hpkg, hpkgLocal⟩ hlocal⟩
  choose choice hchoice using hname
  exact ⟨choice, fun pkg hpkg name hlocal => hchoice name pkg hpkg hlocal⟩

structure Fixes (data : List LockEntry) (root : Root) (walk : List Manifest) : Prop where
  needed : ∀ data', SameNames data data' → Passes data' root walk → Resolvable data root walk
  enough : Resolvable data root walk → ∃ choice, Passes (data.map (resync choice)) root walk ∧
    Verified (data.map (resync choice)) root walk

/-- No lock with these packages passes unless the manifests settle their versions, and
then the lock that is resynced to them passes. -/
theorem resync_fixes (data : List LockEntry) (root : Root) (walk : List Manifest) : Fixes data root walk where
  needed data' hsame hpass := by
    obtain ⟨wsVersion, hws, hgood, hall⟩ := passes_iff.mp hpass
    refine ⟨wsVersion, hws, hgood, ?_⟩
    intro pkg hpkg name hlocal
    obtain ⟨pkg', hpkg', hlocal'⟩ := hsame.find hpkg
    have hmem : pkg'.version ∈ versionsOf data' name := mem_versionsOf.mpr ⟨pkg', hpkg', hlocal'.trans hlocal, rfl⟩
    obtain ⟨last, hlast⟩ := Option.isSome_iff_exists.mp (List.getLast?_isSome.mpr (List.ne_nil_of_mem hmem))
    have hmatched := hall name last hlast
    obtain ⟨v, rfl⟩ := matched_text hmatched
    exact ⟨v, hmatched⟩
  enough h := by
    obtain ⟨wsVersion, hws, hgood, hall⟩ := h
    obtain ⟨choice, hchoice⟩ := exists_choice hall
    have hverified := resync_matched hchoice
    refine ⟨choice, ?_, wsVersion, hws, hverified⟩
    apply passes_iff.mpr
    refine ⟨wsVersion, hws, hgood, ?_⟩
    intro name version hlast
    obtain ⟨pkg, hpkg, hlocal, rfl⟩ := mem_versionsOf.mp (List.mem_of_getLast? hlast)
    exact hverified pkg hpkg name hlocal

end DigStore.LockReport
