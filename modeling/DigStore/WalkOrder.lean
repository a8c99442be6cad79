import DigStore.LockGate

namespace DigStore.WalkOrder

open Library Lockfile LockGate

/-- A directory tree: no two of its manifests have one path. A walk yields them in
some order. -/
structure Tree where
  root : Root
  manifests : List Manifest
  distinct : (manifests.map Manifest.posix).Nodup

def exitCode (lock : Option (Except LoadError (List LockEntry))) (root : Root) (walk : List Manifest) :
    Except Raised ℕ :=
  (main lock root walk).map Outcome.code

def resolved (root : Root) (walk : List Manifest) (name : String) : Except Raised (Set (Option String × String)) :=
  (manifestVersions root walk).map fun manifests => {pair | pair ∈ (manifests.lookup name).getD []}

structure SameResult (lock : Option (Except LoadError (List LockEntry))) (root : Root) (walk walk' : List Manifest) :
    Prop where
  code : exitCode lock root walk = exitCode lock root walk'
  versions : ∀ name, resolved root walk name = resolved root walk' name

def OrderBlind (lock : Option (Except LoadError (List LockEntry))) (tree : Tree) : Prop :=
  ∀ walk walk', walk.Perm tree.manifests → walk'.Perm tree.manifests → SameResult lock tree.root walk walk'

/-- The root manifest settles nothing: it is not there, or it has no string for its
members to inherit. -/
def Searches (walk : List Manifest) : Prop :=
  rootContent walk = .error .fileNotFound ∨
    ∃ document version, rootContent walk = .ok document ∧ inheritable document = .ok version ∧
      ∀ v, version ≠ some (.text v)

def Inherits (root : Root) (manifest : Manifest) : Prop :=
  ∃ pkg name, Declares root manifest pkg ∧ pkg.name = some name ∧ name ≠ "" ∧ pkg.version = some .workspace

/-- A member inherits, and the tree is searched for what: two manifests offer
different versions. -/
structure Split (tree : Tree) : Prop where
  searches : Searches tree.manifests
  wellFormed : ∀ manifest ∈ tree.manifests, ¬Malformed tree.root manifest
  offers : ∃ manifest ∈ tree.manifests, ∃ manifest' ∈ tree.manifests, ∃ v v',
    offered tree.root manifest = some v ∧ offered tree.root manifest' = some v' ∧ v ≠ v'
  inherits : ∃ manifest ∈ tree.manifests, Inherits tree.root manifest

/-- Two results that differ by the order within each list at most. -/
inductive Alike : (r r' : Except Raised (AList fun _ : String => List (Option String × String))) → Prop
  | raised (error : Raised) : Alike (.error error) (.error error)
  | found {items items' : List (String × Option String × String)} (h : items.Perm items') :
      Alike (.ok (Dict.group items)) (.ok (Dict.group items'))

section

variable {root : Root} {walk walk' : List Manifest}

theorem mem_group_perm {items items' : List (String × Option String × String)} (h : items.Perm items') (name : String)
    (pair : Option String × String) :
    pair ∈ ((Dict.group items).lookup name).getD [] ↔ pair ∈ ((Dict.group items').lookup name).getD [] := by
  rw [Dict.lookup_group, Dict.lookup_group]
  exact (Dict.perm_valuesOf name h).mem_iff

theorem inspect_perm {items items' : List (String × Option String × String)} (h : items.Perm items') (name : String)
    (version : Option LockVersion) :
    (inspect (Dict.group items) name version).mismatch? = none ↔
      (inspect (Dict.group items') name version).mismatch? = none := by
  rw [inspect_checked, inspect_checked, Dict.lookup_group, Dict.lookup_group]
  have hperm := Dict.perm_valuesOf name h
  have hnil : Dict.valuesOf name items = [] ↔ Dict.valuesOf name items' = [] := by
    constructor
    · intro hn
      exact (hn ▸ hperm).nil_eq.symm
    · intro hn
      exact (hn ▸ hperm).eq_nil
  simp only [ne_eq, hnil, hperm.mem_iff]

theorem verdict_perm {items items' : List (String × Option String × String)} (h : items.Perm items')
    (locals : AList fun _ : String => Option LockVersion) :
    (verdict (findings locals (Dict.group items))).code = (verdict (findings locals (Dict.group items'))).code := by
  have hzero : (verdict (findings locals (Dict.group items))).code = 0 ↔
      (verdict (findings locals (Dict.group items'))).code = 0 := by
    rw [verdict_zero, verdict_zero, findings_checked, findings_checked]
    simp only [inspect_perm h]
  obtain h0 | h1 := verdict_code (findings locals (Dict.group items)) <;>
    obtain h0' | h1' := verdict_code (findings locals (Dict.group items')) <;> omega

theorem Alike.same (h : Alike (manifestVersions root walk) (manifestVersions root walk'))
    (lock : Option (Except LoadError (List LockEntry))) : SameResult lock root walk walk' := by
  generalize hr : manifestVersions root walk = r at h
  generalize hr' : manifestVersions root walk' = r' at h
  constructor
  · unfold exitCode main
    match lock with
    | none => rfl
    | some (.error error) => rfl
    | some (.ok data) =>
        rw [hr, hr']
        cases h with
        | raised error => rfl
        | found hperm => exact congrArg Except.ok (verdict_perm hperm (localLockVersions data))
  · intro name
    rw [resolved, resolved, hr, hr']
    cases h with
    | raised error => rfl
    | found hperm => exact congrArg Except.ok (Set.ext (mem_group_perm hperm name))

theorem alike_malformed {wsVersion wsVersion' : Option String} (hp : walk.Perm walk')
    (hws : workspaceInheritedVersion root walk = .ok wsVersion)
    (hws' : workspaceInheritedVersion root walk' = .ok wsVersion') {manifest : Manifest} (hmem : manifest ∈ walk)
    (hbad : Malformed root manifest) : Alike (manifestVersions root walk) (manifestVersions root walk') := by
  rw [manifestVersions_malformed hws hmem hbad, manifestVersions_malformed hws' (hp.mem_iff.mp hmem) hbad]
  exact .raised .attribute

theorem alike_of_declared {wsVersion wsVersion' : Option String} (hp : walk.Perm walk')
    (hws : workspaceInheritedVersion root walk = .ok wsVersion)
    (hws' : workspaceInheritedVersion root walk' = .ok wsVersion')
    (h : ∀ manifest ∈ walk, declared root wsVersion manifest = declared root wsVersion' manifest) :
    Alike (manifestVersions root walk) (manifestVersions root walk') := by
  by_cases hmal : ∃ manifest ∈ walk, Malformed root manifest
  · obtain ⟨manifest, hmem, hbad⟩ := hmal
    exact alike_malformed hp hws hws' hmem hbad
  · rw [manifestVersions_ok hws fun manifest hmem hbad => hmal ⟨manifest, hmem, hbad⟩,
      manifestVersions_ok hws' fun manifest hmem hbad => hmal ⟨manifest, hp.mem_iff.mpr hmem, hbad⟩]
    apply Alike.found
    have hsame : met root wsVersion walk = met root wsVersion' walk := by
      apply List.filterMap_congr
      intro manifest hmem
      rw [h manifest hmem]
    rw [hsame]
    exact hp.filterMap _

theorem workspaceInheritedVersion_searches (root : Root) (h : Searches walk) :
    workspaceInheritedVersion root walk = .ok (walk.findSome? (offered root)) := by
  unfold workspaceInheritedVersion
  obtain hr | ⟨document, version, hr, hi, hv⟩ := h
  · rw [hr]
  · rw [hr]
    dsimp only
    rw [hi]
    split
    · next he => cases he
    · next v he =>
        cases he
        exact absurd rfl (hv v)
    · rfl

theorem workspaceInheritedVersion_settled (root : Root) (h : ¬Searches walk) (hr : rootContent walk = rootContent walk') :
    workspaceInheritedVersion root walk = workspaceInheritedVersion root walk' := by
  unfold workspaceInheritedVersion
  rw [← hr]
  match hc : rootContent walk with
  | .error .fileNotFound => exact absurd (.inl hc) h
  | .error .other => rfl
  | .ok document =>
      dsimp only
      match hi : inheritable document with
      | .error raised => rfl
      | .ok (some (.text v)) => rfl
      | .ok none => exact absurd (.inr ⟨document, none, hc, hi, by simp⟩) h
      | .ok (some .workspace) => exact absurd (.inr ⟨document, _, hc, hi, by simp⟩) h
      | .ok (some .other) => exact absurd (.inr ⟨document, _, hc, hi, by simp⟩) h

end

theorem Declares.unique {root : Root} {manifest : Manifest} {pkg pkg' : Package} (h : Declares root manifest pkg)
    (h' : Declares root manifest pkg') : pkg = pkg' := by
  obtain ⟨_, document, hload, hpackage⟩ := h
  obtain ⟨_, document', hload', hpackage'⟩ := h'
  cases hload.symm.trans hload'
  cases hpackage.symm.trans hpackage'
  rfl

theorem resolve_own {version : Option VersionKey} (h : version ≠ some .workspace) (wsVersion wsVersion' : Option String) :
    resolve wsVersion version = resolve wsVersion' version := by
  match version with
  | none => rfl
  | some .workspace => exact absurd rfl h
  | some (.text v) => rfl
  | some .other => rfl

theorem declared_own {root : Root} {manifest : Manifest} (h : ¬Inherits root manifest)
    (wsVersion wsVersion' : Option String) : declared root wsVersion manifest = declared root wsVersion' manifest := by
  obtain ⟨hbad, hd⟩ | hd | ⟨pkg, name, hdeclares, hname, hne, hd⟩ := declared_cases root wsVersion manifest
  · rw [hd, declared_malformed hbad]
  · obtain ⟨hbad, _⟩ | hd' | ⟨pkg, name, hdeclares, hname, hne, _⟩ := declared_cases root wsVersion' manifest
    · cases hd.symm.trans (declared_malformed hbad)
    · rw [hd, hd']
    · cases hd.symm.trans (declared_table hdeclares hname hne)
  · have hown : pkg.version ≠ some .workspace := fun hv => h ⟨pkg, name, hdeclares, hname, hne, hv⟩
    rw [hd, declared_table hdeclares hname hne, resolve_own hown wsVersion wsVersion']

section

variable {tree : Tree} {walk walk' : List Manifest}

theorem Tree.eq_of_posix (tree : Tree) {manifest manifest' : Manifest} (h : manifest ∈ tree.manifests)
    (h' : manifest' ∈ tree.manifests) (hpath : manifest.posix = manifest'.posix) : manifest = manifest' :=
  List.inj_on_of_nodup_map tree.distinct h h' hpath

theorem rootContent_perm (hp : walk.Perm tree.manifests) : rootContent walk = rootContent tree.manifests := by
  have hfind := Scan.find?_perm (p := fun manifest : Manifest => manifest.parts = ["Cargo.toml"]) hp
  rw [rootContent, rootContent, hfind]
  intro manifest hmem manifest' hmem' hparts hparts'
  apply tree.eq_of_posix (hp.mem_iff.mp hmem) (hp.mem_iff.mp hmem')
  rw [Manifest.posix, Manifest.posix, of_decide_eq_true hparts, of_decide_eq_true hparts']

theorem searches_perm (hp : walk.Perm tree.manifests) : Searches walk ↔ Searches tree.manifests := by
  rw [Searches, Searches, rootContent_perm hp]

theorem offered_first {root : Root} {manifest : Manifest} {rest : List Manifest} {v : String}
    (h : offered root manifest = some v) (hs : Searches (manifest :: rest)) :
    workspaceInheritedVersion root (manifest :: rest) = .ok (some v) := by
  rw [workspaceInheritedVersion_searches root hs, List.findSome?_cons, h]

theorem resolved_ok {root : Root} {wsVersion : Option String}
    (hws : workspaceInheritedVersion root walk = .ok wsVersion)
    (hgood : ∀ manifest ∈ walk, ¬Malformed root manifest) {name : String} (hne : name ≠ "") :
    resolved root walk name = .ok {pair | ∃ manifest ∈ walk, ∃ pkg, Declares root manifest pkg ∧ pkg.name = some name ∧
      pair = (resolve wsVersion pkg.version, manifest.posix)} := by
  rw [resolved, manifestVersions_ok hws hgood]
  apply congrArg Except.ok
  ext pair
  rw [Set.mem_ofPred_eq, Set.mem_ofPred_eq, ← mem_met hne, Dict.lookup_group, Dict.mem_valuesOf]

/-- Two orders that begin with different offers resolve an inheriting member differently. -/
theorem Split.not_orderBlind (h : Split tree) (lock : Option (Except LoadError (List LockEntry))) :
    ¬OrderBlind lock tree := by
  obtain ⟨first, hfirst, first', hfirst', v, v', hoffers, hoffers', hne⟩ := h.offers
  obtain ⟨member, hmember, pkg, name, hdeclares, hname, hnamed, hinherits⟩ := h.inherits
  obtain ⟨rest, hp⟩ := Scan.exists_perm_cons hfirst
  obtain ⟨rest', hp'⟩ := Scan.exists_perm_cons hfirst'
  have hws := offered_first hoffers ((searches_perm hp).mpr h.searches)
  have hws' := offered_first hoffers' ((searches_perm hp').mpr h.searches)
  intro hblind
  have hsame := (hblind _ _ hp hp').versions name
  rw [resolved_ok hws (fun _ hmem => h.wellFormed _ (hp.mem_iff.mp hmem)) hnamed,
    resolved_ok hws' (fun _ hmem => h.wellFormed _ (hp'.mem_iff.mp hmem)) hnamed] at hsame
  have hpair : ∃ manifest ∈ first :: rest, ∃ pkg, Declares tree.root manifest pkg ∧ pkg.name = some name ∧
      (some v, member.posix) = (resolve (some v) pkg.version, manifest.posix) :=
    ⟨member, hp.mem_iff.mpr hmember, pkg, hdeclares, hname, by rw [hinherits]; rfl⟩
  have hpair' := (Set.ext_iff.mp (Except.ok.inj hsame) (some v, member.posix)).mp hpair
  obtain ⟨other, hother, pkg', hdeclares', _, heq⟩ := hpair'
  cases tree.eq_of_posix (hp'.mem_iff.mp hother) hmember (congrArg Prod.snd heq).symm
  cases Declares.unique hdeclares hdeclares'
  have hversion : some v = resolve (some v') pkg.version := congrArg Prod.fst heq
  rw [hinherits] at hversion
  exact hne (Option.some.inj hversion)

theorem alike_settled (hs : ¬Searches tree.manifests) (hp : walk.Perm tree.manifests)
    (hp' : walk'.Perm tree.manifests) :
    Alike (manifestVersions tree.root walk) (manifestVersions tree.root walk') := by
  have hsettled := workspaceInheritedVersion_settled tree.root (mt (searches_perm hp).mp hs)
    ((rootContent_perm hp).trans (rootContent_perm hp').symm)
  cases hws : workspaceInheritedVersion tree.root walk with
  | error raised =>
      rw [manifestVersions_raised hws, manifestVersions_raised (hsettled.symm.trans hws)]
      exact .raised raised
  | ok wsVersion => exact alike_of_declared (hp.trans hp'.symm) hws (hsettled.symm.trans hws) fun _ _ => rfl

theorem alike_searched (hs : Searches tree.manifests) (hsplit : ¬Split tree) (hp : walk.Perm tree.manifests)
    (hp' : walk'.Perm tree.manifests) :
    Alike (manifestVersions tree.root walk) (manifestVersions tree.root walk') := by
  have hpp : walk.Perm walk' := hp.trans hp'.symm
  have hws := workspaceInheritedVersion_searches tree.root ((searches_perm hp).mpr hs)
  have hws' := workspaceInheritedVersion_searches tree.root ((searches_perm hp').mpr hs)
  by_cases hmal : ∃ manifest ∈ tree.manifests, Malformed tree.root manifest
  · obtain ⟨manifest, hmem, hbad⟩ := hmal
    exact alike_malformed hpp hws hws' (hp.mem_iff.mpr hmem) hbad
  by_cases hinh : ∃ manifest ∈ tree.manifests, Inherits tree.root manifest
  · -- A member inherits, so all offers are one and the searches agree.
    have hsearch : walk.findSome? (offered tree.root) = walk'.findSome? (offered tree.root) := by
      apply Scan.findSome?_perm hpp
      intro first hfirst first' hfirst' v v' hoffers hoffers'
      by_contra hne
      apply hsplit
      exact ⟨hs, fun manifest hmem hbad => hmal ⟨manifest, hmem, hbad⟩,
        ⟨first, hp.mem_iff.mp hfirst, first', hp.mem_iff.mp hfirst', v, v', hoffers, hoffers', hne⟩, hinh⟩
    rw [← hsearch] at hws'
    exact alike_of_declared hpp hws hws' fun _ _ => rfl
  · apply alike_of_declared hpp hws hws'
    intro manifest hmem
    exact declared_own (fun hi => hinh ⟨manifest, hp.mem_iff.mp hmem, hi⟩) _ _

/-- The order of the walk shows exactly where a member inherits a version that the
tree is searched for and offers twice. -/
theorem orderBlind_iff (lock : Option (Except LoadError (List LockEntry))) (tree : Tree) :
    OrderBlind lock tree ↔ ¬Split tree := by
  constructor
  · intro hblind hsplit
    exact hsplit.not_orderBlind lock hblind
  · intro hsplit walk walk' hp hp'
    apply Alike.same
    by_cases hs : Searches tree.manifests
    · exact alike_searched hs hsplit hp hp'
    · exact alike_settled hs hp hp'

end

def workspaceAt (directory name offer : String) (version : VersionKey) : Manifest :=
  ⟨[directory, "Cargo.toml"], .ok ⟨.table ⟨.table (some (.text offer))⟩, .table ⟨some name, some version⟩⟩⟩

def inheriting : Manifest := workspaceAt "a" "foo" "1.0.0" .workspace

def beside : Manifest := workspaceAt "b" "bar" "2.0.0" (.text "2.0.0")

def twoWorkspaces : Tree where
  root := here
  manifests := [inheriting, beside]
  distinct := by decide +kernel

def fooLock : List LockEntry := [localEntry "foo" "1.0.0"]

theorem walk_order_shows :
    exitCode (some (.ok fooLock)) here [inheriting, beside] = .ok 0 ∧
      exitCode (some (.ok fooLock)) here [beside, inheriting] = .ok 1 ∧
      ¬OrderBlind (some (.ok fooLock)) twoWorkspaces := by
  have hzero : exitCode (some (.ok fooLock)) here [inheriting, beside] = .ok 0 := by decide +kernel
  have hone : exitCode (some (.ok fooLock)) here [beside, inheriting] = .ok 1 := by decide +kernel
  refine ⟨hzero, hone, ?_⟩
  intro hblind
  have hcode := (hblind [inheriting, beside] [beside, inheriting] (List.Perm.refl _) (List.Perm.swap _ _ _)).code
  cases hzero.symm.trans (hcode.trans hone)

end DigStore.WalkOrder
