import DigStore.Library.Dict
import Mathlib.Data.List.Dedup
import Mathlib.Data.List.Sort

namespace DigStore.Lockfile

open Library

inductive LoadError
  | fileNotFound
  | other
  deriving DecidableEq

inductive Raised
  | load (error : LoadError)
  | attribute
  deriving DecidableEq

/-- What stands under a key that is read as a table. -/
inductive Subtable (α : Type)
  | missing
  | table (body : α)
  | other (truthy : Bool)

def Subtable.get {α : Type} : Subtable α → Except Raised (Option α)
  | .missing => .ok none
  | .table body => .ok (some body)
  | .other _ => .error .attribute

/-- A `version` of a manifest: a string, a table whose `workspace` is true, or
any other value. -/
inductive VersionKey
  | text (version : String)
  | workspace
  | other

structure Package where
  name : Option String
  version : Option VersionKey

structure Workspace where
  package : Subtable (Option VersionKey)

structure Document where
  workspace : Subtable Workspace
  package : Subtable Package

structure Manifest where
  parts : List String
  content : Except LoadError Document

def Manifest.posix (manifest : Manifest) : String := "/".intercalate manifest.parts

structure Root where
  parts : List String
  shown : String

def inTarget (root : Root) (manifest : Manifest) : Bool := decide ("target" ∈ root.parts ++ manifest.parts)

/-- What `root / "Cargo.toml"` loads as: the walk meets it, if it is there. -/
def rootContent (walk : List Manifest) : Except LoadError Document :=
  match walk.find? fun manifest => manifest.parts = ["Cargo.toml"] with
  | some manifest => manifest.content
  | none => .error .fileNotFound

def inheritable (document : Document) : Except Raised (Option VersionKey) :=
  match document.workspace.get with
  | .error raised => .error raised
  | .ok none => .ok none
  | .ok (some workspace) =>
    match workspace.package.get with
    | .error raised => .error raised
    | .ok none => .ok none
    | .ok (some version) => .ok version

/-- The string a manifest outside target directories offers its members, if any;
whatever goes wrong on the way is passed over. -/
def offered (root : Root) (manifest : Manifest) : Option String :=
  if inTarget root manifest then none
  else
    match manifest.content with
    | .error _ => none
    | .ok document =>
      match inheritable document with
      | .ok (some (.text version)) => some version
      | _ => none

def workspaceInheritedVersion (root : Root) (walk : List Manifest) : Except Raised (Option String) :=
  match rootContent walk with
  | .error .fileNotFound => .ok (walk.findSome? (offered root))
  | .error .other => .error (.load .other)
  | .ok document =>
    match inheritable document with
    | .error raised => .error raised
    | .ok (some (.text version)) => .ok (some version)
    -- No string at the root: the first one that the walk meets is taken.
    | .ok _ => .ok (walk.findSome? (offered root))

def resolve (wsVersion : Option String) : Option VersionKey → Option String
  | some .workspace => wsVersion
  | some (.text version) => some version
  | _ => none

def declared (root : Root) (wsVersion : Option String) (manifest : Manifest) :
    Except Raised (Option (String × Option String × String)) :=
  if inTarget root manifest then .ok none
  else
    match manifest.content with
    | .error _ => .ok none
    | .ok document =>
      match document.package with
      | .missing => .ok none
      | .other truthy => if truthy then .error .attribute else .ok none
      | .table pkg =>
        match pkg.name with
        | none => .ok none
        | some name =>
          if name = "" then .ok none
          else .ok (some (name, resolve wsVersion pkg.version, manifest.posix))

def manifestVersions (root : Root) (walk : List Manifest) :
    Except Raised (AList fun _ : String => List (Option String × String)) := do
  let wsVersion ← workspaceInheritedVersion root walk
  let found ← walk.mapM (declared root wsVersion)
  return Dict.group found.reduceOption

inductive LockVersion
  | text (version : String)
  | other (shown : String)
  deriving DecidableEq

def shown : Option LockVersion → String
  | none => "None"
  | some (.text version) => version
  | some (.other shown) => shown

structure LockEntry where
  name : Option String
  version : Option LockVersion
  source : Option String

def LockEntry.localName (pkg : LockEntry) : Option String :=
  match pkg.name with
  | some name => if name ≠ "" ∧ pkg.source = none then some name else none
  | none => none

def localLockVersions (data : List LockEntry) : AList fun _ : String => Option LockVersion :=
  Dict.assign (data.filterMap fun pkg => pkg.localName.map fun name => (name, pkg.version))

inductive Finding
  | mismatch (text : String)
  | checked (text : String)

def inspect (manifests : AList fun _ : String => List (Option String × String)) (name : String)
    (lockVersion : Option LockVersion) : Finding :=
  let entries := (manifests.lookup name).getD []
  let paths := ", ".intercalate (entries.map (·.2))
  let versions := (entries.map (·.1)).dedup
  let tomlVersion := versions.head?.join
  let toml := tomlVersion.getD ""
  if entries = [] then
    .mismatch (s!"  {name}: present in Cargo.lock as a local package (version {shown lockVersion}) " ++
      "but no matching [package] Cargo.toml was found in the tree")
  else if none ∈ versions then
    .mismatch (s!"  {name} ({paths}): could not resolve a version from Cargo.toml " ++
      s!"(Cargo.lock={shown lockVersion})")
  else if versions.length > 1 then
    -- Nothing tells the member from a copy of it, so manifests that disagree fail.
    let found := ", ".intercalate (versions.reduceOption.insertionSort (· ≤ ·))
    .mismatch (s!"  {name} ({paths}): AMBIGUOUS - multiple Cargo.toml declare this name at " ++
      s!"differing versions [{found}]; cannot verify Cargo.lock={shown lockVersion}")
  else if tomlVersion.map LockVersion.text ≠ lockVersion then
    .mismatch s!"  {name} ({paths}): Cargo.toml={toml} but Cargo.lock={shown lockVersion}"
  else .checked s!"{name}@{toml}"

def Finding.mismatch? : Finding → Option String
  | .mismatch text => some text
  | .checked _ => none

def Finding.checked? : Finding → Option String
  | .mismatch _ => none
  | .checked text => some text

structure Outcome where
  code : ℕ
  printed : List String

def verdict (findings : List Finding) : Outcome :=
  let mismatches := findings.filterMap Finding.mismatch?
  let checked := findings.filterMap Finding.checked?
  if mismatches ≠ [] then
    ⟨1, ["Cargo.lock local-package version does NOT match Cargo.toml:", "\n".intercalate mismatches,
      "\nFix: run `cargo build` (or `cargo update -p <name>`) to resync Cargo.lock, " ++
        "then commit the updated Cargo.lock."]⟩
  else if checked = [] then ⟨0, ["WARN: Cargo.lock has no local (source-less) packages to check."]⟩
  else
    ⟨0, [s!"OK: Cargo.lock matches Cargo.toml for {checked.length} local package(s): " ++
      ", ".intercalate checked]⟩

def findings (locals : AList fun _ : String => Option LockVersion)
    (manifests : AList fun _ : String => List (Option String × String)) : List Finding :=
  let items := (locals.entries.map fun item => (item.1, item.2)).insertionSort fun a b => a.1 ≤ b.1
  items.map fun item => inspect manifests item.1 item.2

/-- The script on a lock that is no file, does not load, or loads. -/
def main (lock : Option (Except LoadError (List LockEntry))) (root : Root) (walk : List Manifest) :
    Except Raised Outcome :=
  match lock with
  | none =>
    .ok ⟨0, [s!"WARN: no Cargo.lock at {root.shown} - nothing to check " ++
      "(a publishable crate SHOULD commit Cargo.lock)."]⟩
  | some (.error error) => .error (.load error)
  | some (.ok data) =>
    match manifestVersions root walk with
    | .error raised => .error raised
    | .ok manifests => .ok (verdict (findings (localLockVersions data) manifests))

end DigStore.Lockfile
