import Fkst.Update.Command
import Fkst.Lib.Words

/-!
# Installing a release

`install_asset` downloads an archive and its checksums, compares the digest, unpacks the archive and swaps
the binaries: each is copied beside its target first, and when all are there each is renamed over its
target.  Any call may fail, and the updater may be stopped after any of its accesses to the directory.

`install_crash_safe`: wherever it is stopped, a binary is the one that was there before, or the whole one of
an archive whose digest was right, and nothing else in the directory has changed but the copies.
-/

set_option autoImplicit false

namespace Fkst.Update

/-! ## The directory -/

/-- What a file holds, and whether it may be executed. -/
structure File where
  bytes : List UInt8
  executable : Bool
deriving DecidableEq

/-- The files of a directory by name. -/
abbrev Dir := String → Option File

/-- An access to the directory. -/
inductive DirOp where
  | remove (name : String)
  /-- What a copy has written so far. -/
  | write (name : String) (file : File)
  | setExecutable (name : String)
  | rename (src dst : String)
deriving DecidableEq

/-- `set_executable`. -/
def File.installed (file : File) : File := { file with executable := true }

/-- What an access does. -/
def DirOp.apply (dir : Dir) : DirOp → Dir
  | .remove name => Function.update dir name none
  | .write name file => Function.update dir name (some file)
  | .setExecutable name => Function.update dir name ((dir name).map File.installed)
  | .rename src dst =>
    match dir src with
    | some file => Function.update (Function.update dir dst (some file)) src none
    | none => dir

/-- What several accesses do. -/
def applyOps (ops : List DirOp) (dir : Dir) : Dir := ops.foldl DirOp.apply dir

/-! ## Swapping -/

/-- `ErrorClass`, once an asset was found. -/
inductive InstallErrorClass where
  | downloadFailed
  | checksumMismatch
  | extractFailed
  | payloadInvalid
  | swapFailed
deriving DecidableEq

/-- `UpdateError`, once an asset was found. -/
structure InstallError where
  cls : InstallErrorClass
  detail : String
deriving DecidableEq

/-- `BINARIES`. -/
def binaries : List String := ["fkst-supervisor", "fkst-framework"]

/-- The copy of a binary. -/
def stagingName (pid : ℕ) (name : String) : String := ".fkst-update-" ++ pid.repr ++ "-" ++ name

/-- How the calls of `swap_binaries` end, for each binary: what a copy has written before it is done or fails,
and the errors. -/
structure SwapEnv where
  copy : String → List File × Option String
  chmod : String → Option String
  rename : String → Option String

section Swap

variable (env : SwapEnv) (pid : ℕ) (payload : Dir)

/-- The first loop of `swap_binaries`, where it fails after some accesses: the copies are removed. -/
def stageFail (staging : String) (staged : List String) (ops : List DirOp) (err : String) :
    List DirOp × Except InstallError Unit :=
  (.remove staging :: ops ++ .remove staging :: staged.map .remove, .error ⟨.swapFailed, err⟩)

/-- The first loop of `swap_binaries`: its accesses, and its result. -/
def stage : List String → List String → List DirOp × Except InstallError Unit
  | [], _ => ([], .ok ())
  | name :: names, staged =>
    let staging := stagingName pid name
    match payload name with
    | none => stageFail staging staged [] "No such file or directory (os error 2)"
    | some file =>
      let parts := (env.copy name).1.map (.write staging)
      match (env.copy name).2 with
      | some err => stageFail staging staged parts err
      | none =>
        match env.chmod name with
        | some err => stageFail staging staged (parts ++ [.write staging file]) err
        | none =>
          let (ops, result) := stage names (staged ++ [staging])
          (.remove staging :: parts ++ .write staging file :: .setExecutable staging :: ops, result)

/-- The second loop. -/
def renames (staged : List String) : List String → List DirOp × Except InstallError Unit
  | [] => ([], .ok ())
  | name :: names =>
    match env.rename name with
    | some err => (staged.map .remove, .error ⟨.swapFailed, err⟩)
    | none =>
      let (ops, result) := renames staged names
      (.rename (stagingName pid name) name :: ops, result)

/-- `swap_binaries`. -/
def swapBinaries : List DirOp × Except InstallError Unit :=
  match stage env pid payload binaries [] with
  | (ops, .error e) => (ops, .error e)
  | (ops, .ok ()) =>
    let (ops', result) := renames env pid (binaries.map (stagingName pid)) binaries
    (ops ++ ops', result)

end Swap

/-! ## Downloading and checking -/

/-- The last component of a path. -/
def baseName (path : List Char) : Option (List Char) :=
  match ((path.splitOn '/').filter fun segment => !segment.isEmpty && segment != ['.']).getLast? with
  | some ['.', '.'] => none
  | last => last

/-- `expected_digest`. -/
def expectedDigest (text archiveName : List Char) : Option (List Char) :=
  (strLines text).findSome? fun line =>
    match Lib.Words.words isWhitespace line with
    | digest :: name :: _ =>
      if baseName (name.dropWhile (· = '*')) = some archiveName then some digest else none
    | _ => none

/-- `digest_token`. -/
def digestToken (stdout : List UInt8) : Except InstallError (List Char) :=
  match Lib.Words.words isWhitespace (Lib.Utf8.lossy stdout) with
  | token :: _ => .ok token
  | [] => .error ⟨.checksumMismatch, "empty digest output"⟩

/-- A command has succeeded. -/
def CommandOutcome.succeeded (outcome : CommandOutcome) : Bool :=
  outcome.status = some 0 && !outcome.timedOut

/-- How everything that is not under the control of the updater goes. -/
structure InstallEnv extends SwapEnv where
  /-- `curl`, for each URL. -/
  download : String → Except String CommandOutcome
  /-- The downloaded checksums. -/
  checksums : Except String (List Char)
  sha256sum : Except String CommandOutcome
  shasum : Except String CommandOutcome
  /-- Making the directory to unpack into. -/
  extractDir : Option String
  tar : Except String CommandOutcome
  /-- What unpacking leaves there. -/
  extract : Dir

/-- `String::from_utf8_lossy(..).trim().to_string()`. -/
def stderrText (outcome : CommandOutcome) : String := String.ofList (trim (Lib.Utf8.lossy outcome.stderr))

/-- `download_to`. -/
def downloadTo (env : InstallEnv) (url : String) : Except InstallError Unit :=
  match env.download url with
  | .error err => .error ⟨.downloadFailed, err⟩
  | .ok outcome =>
    if outcome.timedOut then .error ⟨.downloadFailed, "timeout: " ++ url⟩
    else if outcome.status ≠ some 0 then .error ⟨.downloadFailed, stderrText outcome⟩
    else .ok ()

/-- `sha256_file`, from `shasum` on. -/
def shasumFile (env : InstallEnv) : Except InstallError (List Char) :=
  match env.shasum with
  | .error err => .error ⟨.checksumMismatch, err⟩
  | .ok outcome =>
    if outcome.succeeded then digestToken outcome.stdout
    else .error ⟨.checksumMismatch, "sha256sum and shasum both failed"⟩

/-- `sha256_file`. -/
def sha256File (env : InstallEnv) : Except InstallError (List Char) :=
  match env.sha256sum with
  | .ok outcome => if outcome.succeeded then digestToken outcome.stdout else shasumFile env
  | .error _ => shasumFile env

/-- `verify_checksum`. -/
def verifyChecksum (env : InstallEnv) (archiveName : String) : Except InstallError Unit :=
  match env.checksums with
  | .error err => .error ⟨.checksumMismatch, err⟩
  | .ok text =>
    match expectedDigest text archiveName.toList with
    | none => .error ⟨.checksumMismatch, "no checksum entry for " ++ archiveName⟩
    | some expected =>
      match sha256File env with
      | .error e => .error e
      | .ok actual =>
        if actual.map Char.toLower = expected.map Char.toLower then .ok ()
        else .error ⟨.checksumMismatch, "checksum mismatch for " ++ archiveName⟩

/-- `extract_archive`, with the directory it unpacks into. -/
def extractArchive (env : InstallEnv) : Except InstallError Unit :=
  match env.extractDir, env.tar with
  | some err, _ => .error ⟨.extractFailed, err⟩
  | none, .error err => .error ⟨.extractFailed, err⟩
  | none, .ok outcome => if outcome.succeeded then .ok () else .error ⟨.extractFailed, stderrText outcome⟩

/-- `validate_payload`. -/
def validatePayload (extract : Dir) : Except InstallError Unit :=
  match binaries.find? fun name => (extract name).isNone with
  | some name => .error ⟨.payloadInvalid, "payload missing " ++ name⟩
  | none => .ok ()

/-- What `install_asset` does before it swaps. -/
def prepareAsset (env : InstallEnv) (asset : ReleaseAsset) : Except InstallError Unit := do
  downloadTo env asset.archiveUrl
  downloadTo env asset.checksumsUrl
  verifyChecksum env asset.archiveName
  extractArchive env
  validatePayload env.extract

/-- `install_asset`: its accesses to the directory of the binaries, and its result. -/
def installAsset (env : InstallEnv) (pid : ℕ) (asset : ReleaseAsset) : List DirOp × Except InstallError Unit :=
  match prepareAsset env asset with
  | .error e => ([], .error e)
  | .ok () => swapBinaries env.toSwapEnv pid env.extract

/-! ## What the accesses leave -/

/-- The file that an access is about, if it is no rename. -/
def DirOp.about : DirOp → Option String
  | .remove name => some name
  | .write name _ => some name
  | .setExecutable name => some name
  | .rename _ _ => none

theorem apply_of_about {op : DirOp} {name other : String} (h : op.about = some name) (hne : other ≠ name)
    (dir : Dir) : op.apply dir other = dir other := by
  cases op with
  | rename src dst => cases h
  | remove n =>
    obtain rfl := Option.some.inj h
    exact Function.update_of_ne hne _ _
  | write n file =>
    obtain rfl := Option.some.inj h
    exact Function.update_of_ne hne _ _
  | setExecutable n =>
    obtain rfl := Option.some.inj h
    exact Function.update_of_ne hne _ _

/-- Accesses to other files leave a file as it is. -/
theorem applyOps_of_about {names : List String} {other : String} (hother : other ∉ names) :
    ∀ {ops : List DirOp} (dir : Dir), (∀ op ∈ ops, ∃ name ∈ names, op.about = some name) →
      applyOps ops dir other = dir other
  | [], _, _ => rfl
  | op :: ops, dir, h => by
    obtain ⟨name, hname, habout⟩ := h op List.mem_cons_self
    have hne : other ≠ name := fun heq => hother (heq ▸ hname)
    rw [applyOps, List.foldl_cons, ← applyOps,
      applyOps_of_about hother _ fun op hop => h op (List.mem_cons_of_mem _ hop)]
    exact apply_of_about habout hne dir

theorem applyOps_append (ops ops' : List DirOp) (dir : Dir) :
    applyOps (ops ++ ops') dir = applyOps ops' (applyOps ops dir) := List.foldl_append

/-- The copies of binaries. -/
def stagingNames (pid : ℕ) : List String := binaries.map (stagingName pid)

/-- The characters of the name of a copy. -/
theorem exists_toList_stagingName (pid : ℕ) : ∃ front : List Char, front.head? = some '.' ∧
    ∀ name : String, (stagingName pid name).toList = front ++ name.toList := by
  have hdot : ".fkst-update-".toList.head? = some '.' := by decide +kernel
  refine ⟨(".fkst-update-" ++ pid.repr ++ "-").toList, ?_, fun name => String.toList_append⟩
  generalize ".fkst-update-" = front at *
  rw [String.toList_append, String.toList_append, List.append_assoc, List.head?_append, hdot, Option.some_or]

theorem stagingName_injective {pid : ℕ} {name name' : String} (h : stagingName pid name = stagingName pid name') :
    name = name' := by
  obtain ⟨front, _, hfront⟩ := exists_toList_stagingName pid
  exact String.toList_inj.1 (List.append_cancel_left
    ((hfront name).symm.trans ((congrArg String.toList h).trans (hfront name'))))

/-- No copy has the name of a binary. -/
theorem binaries_ne_stagingName {pid : ℕ} {name other : String} (h : name ∈ binaries) :
    name ≠ stagingName pid other := by
  obtain ⟨front, hdot, hfront⟩ := exists_toList_stagingName pid
  rintro rfl
  have hall : binaries.all (fun name => name.toList.head? != some '.') = true := by decide +kernel
  have hhead := bne_iff_ne.1 (List.all_eq_true.1 hall _ h)
  rw [hfront, List.head?_append, hdot, Option.some_or] at hhead
  exact hhead rfl

section Stage

variable {env : SwapEnv} {pid : ℕ} {payload : Dir}

theorem about_parts (name : String) (parts : List File) :
    ∀ op ∈ parts.map (DirOp.write (stagingName pid name)), op.about = some (stagingName pid name) := by
  intro op hop
  obtain ⟨_, _, rfl⟩ := List.mem_map.1 hop
  rfl

variable (env pid payload) in
/-- How staging goes on: a binary fails and everything is removed again, or it is copied. -/
theorem stage_cons (name : String) (names staged : List String) :
    (∃ ops err, stage env pid payload (name :: names) staged = stageFail (stagingName pid name) staged ops err ∧
      ∀ op ∈ ops, op.about = some (stagingName pid name)) ∨
    ∃ ops file, payload name = some file ∧ stage env pid payload (name :: names) staged =
        (.remove (stagingName pid name) :: ops ++ .write (stagingName pid name) file ::
          .setExecutable (stagingName pid name) ::
            (stage env pid payload names (staged ++ [stagingName pid name])).1,
        (stage env pid payload names (staged ++ [stagingName pid name])).2) ∧
      ∀ op ∈ ops, op.about = some (stagingName pid name) := by
  rw [stage]
  cases hfile : payload name with
  | none => exact Or.inl ⟨[], _, rfl, fun op hop => by cases hop⟩
  | some file =>
    simp only
    cases hcopy : (env.copy name).2 with
    | some err => exact Or.inl ⟨_, err, rfl, about_parts name _⟩
    | none =>
      simp only
      cases hchmod : env.chmod name with
      | some err =>
        refine Or.inl ⟨_, err, rfl, fun op hop => ?_⟩
        rcases List.mem_append.1 hop with hop | hop
        · exact about_parts name _ op hop
        · rw [List.mem_singleton.1 hop]
          rfl
      | none => exact Or.inr ⟨_, file, rfl, rfl, about_parts name _⟩

/-- Staging accesses nothing but copies. -/
theorem stage_about : ∀ (names staged : List String), ∀ op ∈ (stage env pid payload names staged).1,
    ∃ copy ∈ names.map (stagingName pid) ++ staged, op.about = some copy
  | [], _, op, hop => by cases hop
  | name :: names, staged, op, hop => by
    have hfirst : stagingName pid name ∈ (name :: names).map (stagingName pid) ++ staged :=
      List.mem_append_left _ List.mem_cons_self
    rcases stage_cons env pid payload name names staged with
      ⟨ops, err, heq, hops⟩ | ⟨ops, file, _, heq, hops⟩
    · rw [heq, stageFail, List.cons_append] at hop
      rcases List.mem_cons.1 hop with rfl | hop
      · exact ⟨_, hfirst, rfl⟩
      rcases List.mem_append.1 hop with hop | hop
      · exact ⟨_, hfirst, hops op hop⟩
      rcases List.mem_cons.1 hop with rfl | hop
      · exact ⟨_, hfirst, rfl⟩
      · obtain ⟨copy, hcopy, rfl⟩ := List.mem_map.1 hop
        exact ⟨copy, List.mem_append_right _ hcopy, rfl⟩
    · rw [heq, List.cons_append] at hop
      rcases List.mem_cons.1 hop with rfl | hop
      · exact ⟨_, hfirst, rfl⟩
      rcases List.mem_append.1 hop with hop | hop
      · exact ⟨_, hfirst, hops op hop⟩
      rcases List.mem_cons.1 hop with rfl | hop
      · exact ⟨_, hfirst, rfl⟩
      rcases List.mem_cons.1 hop with rfl | hop
      · exact ⟨_, hfirst, rfl⟩
      · obtain ⟨copy, hcopy, habout⟩ := stage_about names _ op hop
        refine ⟨copy, ?_, habout⟩
        rw [List.map_cons, List.cons_append]
        rcases List.mem_append.1 hcopy with hcopy | hcopy
        · exact List.mem_cons_of_mem _ (List.mem_append_left _ hcopy)
        rcases List.mem_append.1 hcopy with hcopy | hcopy
        · exact List.mem_cons_of_mem _ (List.mem_append_right _ hcopy)
        · rw [List.mem_singleton.1 hcopy]
          exact List.mem_cons_self

/-- Where staging succeeds it leaves the copies it has made before alone. -/
theorem stage_about_of_ok : ∀ {names staged : List String},
    (stage env pid payload names staged).2 = .ok () →
    ∀ op ∈ (stage env pid payload names staged).1, ∃ copy ∈ names.map (stagingName pid), op.about = some copy
  | [], _, _, op, hop => by cases hop
  | name :: names, staged, hok, op, hop => by
    rcases stage_cons env pid payload name names staged with
      ⟨ops, err, heq, hops⟩ | ⟨ops, file, _, heq, hops⟩
    · rw [heq] at hok
      cases hok
    · rw [heq] at hok hop
      rw [List.cons_append] at hop
      rcases List.mem_cons.1 hop with rfl | hop
      · exact ⟨_, List.mem_cons_self, rfl⟩
      rcases List.mem_append.1 hop with hop | hop
      · exact ⟨_, List.mem_cons_self, hops op hop⟩
      rcases List.mem_cons.1 hop with rfl | hop
      · exact ⟨_, List.mem_cons_self, rfl⟩
      rcases List.mem_cons.1 hop with rfl | hop
      · exact ⟨_, List.mem_cons_self, rfl⟩
      · obtain ⟨copy, hcopy, habout⟩ := stage_about_of_ok hok op hop
        exact ⟨copy, List.mem_cons_of_mem _ hcopy, habout⟩

/-- **Where staging succeeds** there is a whole copy of every binary. -/
theorem stage_ok : ∀ {names staged : List String}, names.Nodup →
    (stage env pid payload names staged).2 = .ok () → ∀ (dir : Dir), ∀ name ∈ names,
      ∃ file, payload name = some file ∧
        applyOps (stage env pid payload names staged).1 dir (stagingName pid name) = some file.installed
  | [], _, _, _, _, _, h => by cases h
  | first :: names, staged, hnodup, hok, dir, name, hname => by
    obtain ⟨hfirst, hnodup⟩ := List.nodup_cons.1 hnodup
    rcases stage_cons env pid payload first names staged with
      ⟨ops, err, heq, hops⟩ | ⟨ops, file, hfile, heq, hops⟩
    · rw [heq] at hok
      cases hok
    · rw [heq] at hok ⊢
      simp only
      rw [applyOps_append]
      rcases List.mem_cons.1 hname with rfl | hname
      · refine ⟨file, hfile, ?_⟩
        -- later copies have other names
        have hother : stagingName pid name ∉ names.map (stagingName pid) := fun hmem => by
          obtain ⟨name', hname', heq'⟩ := List.mem_map.1 hmem
          exact hfirst (stagingName_injective heq' ▸ hname')
        rw [applyOps, List.foldl_cons, List.foldl_cons, ← applyOps,
          applyOps_of_about hother _ (stage_about_of_ok hok)]
        simp [DirOp.apply]
      · rw [applyOps, List.foldl_cons, List.foldl_cons, ← applyOps]
        exact stage_ok hnodup hok _ name hname

variable (env pid) in
/-- How renaming goes on: it fails and the copies are removed, or the next binary is renamed. -/
theorem renames_cons (staged : List String) (name : String) (names : List String) :
    (∃ err, renames env pid staged (name :: names) = (staged.map .remove, .error ⟨.swapFailed, err⟩)) ∨
      renames env pid staged (name :: names) =
        (.rename (stagingName pid name) name :: (renames env pid staged names).1,
          (renames env pid staged names).2) := by
  rw [renames]
  cases env.rename name with
  | some err => exact Or.inl ⟨err, rfl⟩
  | none => exact Or.inr rfl

variable {new : String → File}

/-- A rename of a copy. -/
theorem apply_rename {dir : Dir} {name : String} {file : File} (h : dir (stagingName pid name) = some file)
    {other : String} (hother : other ≠ stagingName pid name) :
    (DirOp.rename (stagingName pid name) name).apply dir other = if other = name then some file else dir other := by
  rw [DirOp.apply, h]
  simp only
  rw [Function.update_of_ne hother, Function.update_apply]

variable (env) in
/-- **Wherever renaming is stopped**, some binaries are new and the rest are as they were.  Where it ends, all
are new, or it has failed. -/
theorem renames_take : ∀ {names : List String} {dir : Dir} (k : ℕ),
    (∀ name ∈ names, dir (stagingName pid name) = some (new name)) → names.Nodup → names ⊆ binaries →
    ∃ done rest, names = done ++ rest ∧ (∀ other ∉ stagingNames pid,
      applyOps ((renames env pid (stagingNames pid) names).1.take k) dir other =
        (if other ∈ done then some (new other) else dir other)) ∧
      ((renames env pid (stagingNames pid) names).1.length ≤ k →
        (renames env pid (stagingNames pid) names).2 = .ok () ∧ rest = [] ∨
          ∃ err, (renames env pid (stagingNames pid) names).2 = .error ⟨.swapFailed, err⟩ ∧ rest ≠ [])
  | [], dir, k, _, _, _ =>
    ⟨[], [], rfl, fun other _ => by simp [renames, applyOps], fun _ => Or.inl ⟨rfl, rfl⟩⟩
  | name :: names, dir, k, hdir, hnodup, hsub => by
    rcases renames_cons env pid (stagingNames pid) name names with ⟨err, heq⟩ | heq
    · refine ⟨[], name :: names, rfl, fun other hother => ?_, fun _ => Or.inr ⟨err, by rw [heq], by simp⟩⟩
      rw [heq, if_neg List.not_mem_nil]
      refine applyOps_of_about hother dir fun op hop => ?_
      obtain ⟨copy, hcopy, rfl⟩ := List.mem_map.1 (List.mem_of_mem_take hop)
      exact ⟨copy, hcopy, rfl⟩
    · rw [heq]
      cases k with
      | zero =>
        exact ⟨[], name :: names, rfl, fun other _ => by simp [applyOps], fun h => by simp at h⟩
      | succ k =>
        obtain ⟨hname, hnodup⟩ := List.nodup_cons.1 hnodup
        have hcopy := hdir name List.mem_cons_self
        have hdir' : ∀ name' ∈ names,
            (DirOp.rename (stagingName pid name) name).apply dir (stagingName pid name') = some (new name') := by
          intro name' hname'
          have hne : stagingName pid name' ≠ stagingName pid name := fun heq =>
            hname (stagingName_injective heq ▸ hname')
          have hne' : stagingName pid name' ≠ name := fun heq =>
            binaries_ne_stagingName (hsub List.mem_cons_self) heq.symm
          rw [apply_rename hcopy hne, if_neg hne']
          exact hdir name' (List.mem_cons_of_mem _ hname')
        obtain ⟨done, rest, rfl, hall, hend⟩ := renames_take k hdir' hnodup
          fun name' hname' => hsub (List.mem_cons_of_mem _ hname')
        refine ⟨name :: done, rest, rfl, fun other hother => ?_, fun h => hend (Nat.le_of_succ_le_succ h)⟩
        rw [List.take_succ_cons, applyOps, List.foldl_cons, ← applyOps, hall other hother]
        have hne : other ≠ stagingName pid name := fun heq =>
          hother (heq ▸ List.mem_map_of_mem (hsub List.mem_cons_self))
        rw [apply_rename hcopy hne]
        by_cases hdone : other ∈ done
        · rw [if_pos hdone, if_pos (List.mem_cons_of_mem _ hdone)]
        · rw [if_neg hdone]
          by_cases heq : other = name
          · subst heq
            rw [if_pos rfl, if_pos List.mem_cons_self]
          · rw [if_neg heq, if_neg fun hmem => hdone ((List.mem_cons.1 hmem).resolve_left heq)]

/-- What the updater has done with the binaries so far. -/
structure Swapped (pid : ℕ) (payload dir dir' : Dir) (done rest : List String) : Prop where
  split : binaries = done ++ rest
  new : ∀ name ∈ done, ∃ file, payload name = some file ∧ dir' name = some file.installed
  old : ∀ other, other ∉ done → other ∉ stagingNames pid → dir' other = dir other

theorem Swapped.nothing {dir dir' : Dir} (h : ∀ other, other ∉ stagingNames pid → dir' other = dir other) :
    Swapped pid payload dir dir' [] binaries :=
  ⟨rfl, fun _ hmem => (List.not_mem_nil hmem).elim, fun other _ => h other⟩

theorem nodup_binaries : binaries.Nodup := by decide +kernel

/-- Staging fails because of swapping. -/
theorem stage_error : ∀ {names staged : List String} {e : InstallError},
    (stage env pid payload names staged).2 = .error e → e.cls = .swapFailed
  | [], _, _, h => by cases h
  | name :: names, staged, e, h => by
    rcases stage_cons env pid payload name names staged with
      ⟨ops, err, heq, _⟩ | ⟨ops, file, _, heq, _⟩
    · rw [heq] at h
      cases h
      rfl
    · rw [heq] at h
      exact stage_error h

variable (env pid payload) in
/-- Stopped while it stages, the updater has done nothing to the binaries. -/
theorem swapped_of_stage (dir : Dir) (k : ℕ) :
    Swapped pid payload dir (applyOps ((stage env pid payload binaries []).1.take k) dir) [] binaries := by
  refine Swapped.nothing fun other hother => applyOps_of_about hother dir fun op hop => ?_
  obtain ⟨copy, hcopy, habout⟩ := stage_about binaries [] op (List.mem_of_mem_take hop)
  exact ⟨copy, by simpa [stagingNames] using hcopy, habout⟩

variable (env pid payload) in
/-- **Wherever swapping is stopped**, some binaries are new and the rest are as they were.  Where it ends, all
are new, or it has failed. -/
theorem swapBinaries_take (dir : Dir) (k : ℕ) : ∃ done rest,
    Swapped pid payload dir (applyOps ((swapBinaries env pid payload).1.take k) dir) done rest ∧
      ((swapBinaries env pid payload).1.length ≤ k →
        (swapBinaries env pid payload).2 = .ok () ∧ rest = [] ∨
          ∃ e, (swapBinaries env pid payload).2 = .error e ∧ e.cls = .swapFailed ∧ rest ≠ []) := by
  cases hstage : stage env pid payload binaries [] with
  | mk ops result =>
    have hswapped := fun j => swapped_of_stage env pid payload dir j
    rw [hstage] at hswapped
    cases result with
    | error e =>
      have hswap : swapBinaries env pid payload = (ops, .error e) := by rw [swapBinaries, hstage]
      rw [hswap]
      have he : e.cls = .swapFailed := stage_error (by rw [hstage])
      exact ⟨[], binaries, hswapped k, fun _ => Or.inr ⟨e, rfl, he, by decide⟩⟩
    | ok _ =>
      have hswap : swapBinaries env pid payload =
          (ops ++ (renames env pid (stagingNames pid) binaries).1,
            (renames env pid (stagingNames pid) binaries).2) := by
        rw [swapBinaries, hstage]
        rfl
      rw [hswap]
      rcases Nat.lt_or_ge k ops.length with hk | hk
      · refine ⟨[], binaries, ?_, fun h => ?_⟩
        · rw [List.take_append_of_le_length hk.le]
          exact hswapped k
        · rw [List.length_append] at h
          omega
      -- the copies are complete
      have hcopies : ∀ name ∈ binaries, ∃ file, payload name = some file ∧
          applyOps ops dir (stagingName pid name) = some file.installed := by
        have hok : (stage env pid payload binaries []).2 = .ok () := by rw [hstage]
        have h := stage_ok nodup_binaries hok dir
        rwa [hstage] at h
      have hready : ∀ name ∈ binaries, applyOps ops dir (stagingName pid name) =
          some ((payload name).getD ⟨[], true⟩).installed := fun name hname => by
        obtain ⟨file, hfile, hcopy⟩ := hcopies name hname
        rw [hcopy, hfile]
        rfl
      obtain ⟨done, rest, hsplit, hall, hend⟩ :=
        renames_take env (k - ops.length) hready nodup_binaries (List.Subset.refl _)
      refine ⟨done, rest, ⟨hsplit, fun name hname => ?_, fun other hdone hother => ?_⟩, fun h => ?_⟩
      · have hmem : name ∈ binaries := hsplit ▸ List.mem_append_left _ hname
        have hother : name ∉ stagingNames pid := fun h => by
          obtain ⟨other, _, heq⟩ := List.mem_map.1 h
          exact binaries_ne_stagingName hmem heq.symm
        obtain ⟨file, hfile, _⟩ := hcopies name hmem
        refine ⟨file, hfile, ?_⟩
        rw [List.take_append, List.take_of_length_le hk, applyOps_append, hall name hother, if_pos hname, hfile]
        rfl
      · rw [List.take_append, List.take_of_length_le hk, applyOps_append, hall other hother, if_neg hdone]
        have hnothing := (hswapped ops.length).old other List.not_mem_nil hother
        rwa [List.take_length] at hnothing
      · refine (hend (by rw [List.length_append] at h; omega)).imp id ?_
        rintro ⟨err, herr, hrest⟩
        exact ⟨_, herr, rfl, hrest⟩

end Stage

/-! ## The whole update -/

/-- The digest of the archive is the one that its checksums name. -/
def Verified (env : InstallEnv) (asset : ReleaseAsset) : Prop :=
  ∃ text expected actual, env.checksums = .ok text ∧ expectedDigest text asset.archiveName.toList = some expected ∧
    sha256File env = .ok actual ∧ actual.map Char.toLower = expected.map Char.toLower

theorem verified_of_verifyChecksum {env : InstallEnv} {asset : ReleaseAsset}
    (h : verifyChecksum env asset.archiveName = .ok ()) : Verified env asset := by
  rw [verifyChecksum] at h
  split at h
  · cases h
  · rename_i text htext
    split at h
    · cases h
    · rename_i expected hexpected
      split at h
      · cases h
      · rename_i actual hactual
        split at h
        · rename_i heq
          exact ⟨text, expected, actual, htext, hexpected, hactual, heq⟩
        · cases h

theorem verified_of_prepareAsset {env : InstallEnv} {asset : ReleaseAsset} (h : prepareAsset env asset = .ok ()) :
    Verified env asset := by
  rw [prepareAsset] at h
  cases hone : downloadTo env asset.archiveUrl with
  | error e => rw [hone] at h; cases h
  | ok _ =>
    cases htwo : downloadTo env asset.checksumsUrl with
    | error e => rw [hone, htwo] at h; cases h
    | ok _ =>
      cases hthree : verifyChecksum env asset.archiveName with
      | error e => rw [hone, htwo, hthree] at h; cases h
      | ok _ => exact verified_of_verifyChecksum hthree

theorem cls_of_downloadTo {env : InstallEnv} {url : String} {e : InstallError}
    (h : downloadTo env url = .error e) : e.cls = .downloadFailed := by
  rw [downloadTo] at h
  split at h
  · cases h
    rfl
  · split at h
    · cases h
      rfl
    · split at h
      · cases h
        rfl
      · cases h

theorem cls_of_digestToken {stdout : List UInt8} {e : InstallError} (h : digestToken stdout = .error e) :
    e.cls = .checksumMismatch := by
  rw [digestToken] at h
  split at h
  · cases h
  · cases h
    rfl

theorem cls_of_shasumFile {env : InstallEnv} {e : InstallError} (h : shasumFile env = .error e) :
    e.cls = .checksumMismatch := by
  rw [shasumFile] at h
  split at h
  · cases h
    rfl
  · split at h
    · exact cls_of_digestToken h
    · cases h
      rfl

theorem cls_of_sha256File {env : InstallEnv} {e : InstallError} (h : sha256File env = .error e) :
    e.cls = .checksumMismatch := by
  rw [sha256File] at h
  split at h
  · split at h
    · exact cls_of_digestToken h
    · exact cls_of_shasumFile h
  · exact cls_of_shasumFile h

theorem cls_of_verifyChecksum {env : InstallEnv} {archiveName : String} {e : InstallError}
    (h : verifyChecksum env archiveName = .error e) : e.cls = .checksumMismatch := by
  rw [verifyChecksum] at h
  split at h
  · cases h
    rfl
  · split at h
    · cases h
      rfl
    · split at h
      · rename_i e' he'
        cases h
        exact cls_of_sha256File he'
      · split at h
        · cases h
        · cases h
          rfl

theorem cls_of_extractArchive {env : InstallEnv} {e : InstallError} (h : extractArchive env = .error e) :
    e.cls = .extractFailed := by
  rw [extractArchive] at h
  split at h
  · cases h
    rfl
  · cases h
    rfl
  · split at h
    · cases h
    · cases h
      rfl

theorem cls_of_validatePayload {extract : Dir} {e : InstallError} (h : validatePayload extract = .error e) :
    e.cls = .payloadInvalid := by
  rw [validatePayload] at h
  split at h
  · cases h
    rfl
  · cases h

/-- What goes wrong before swapping is not called a failed swap. -/
theorem cls_of_prepareAsset {env : InstallEnv} {asset : ReleaseAsset} {e : InstallError}
    (h : prepareAsset env asset = .error e) : e.cls ≠ .swapFailed := by
  rw [prepareAsset] at h
  cases hone : downloadTo env asset.archiveUrl with
  | error e' =>
    rw [hone] at h
    cases h
    simp [cls_of_downloadTo hone]
  | ok _ =>
    cases htwo : downloadTo env asset.checksumsUrl with
    | error e' =>
      rw [hone, htwo] at h
      cases h
      simp [cls_of_downloadTo htwo]
    | ok _ =>
      cases hthree : verifyChecksum env asset.archiveName with
      | error e' =>
        rw [hone, htwo, hthree] at h
        cases h
        simp [cls_of_verifyChecksum hthree]
      | ok _ =>
        cases hfour : extractArchive env with
        | error e' =>
          rw [hone, htwo, hthree, hfour] at h
          cases h
          simp [cls_of_extractArchive hfour]
        | ok _ =>
          rw [hone, htwo, hthree, hfour] at h
          simp [cls_of_validatePayload (h : validatePayload env.extract = .error e)]

/-- **Wherever an update is stopped**, some binaries are the whole ones of an archive with the right digest,
the rest are as they were, and so is everything else but the copies.  An update that ends has installed all
of them, or it has failed; and where it has failed for another reason than swapping, it has accessed nothing. -/
theorem install_crash_safe (env : InstallEnv) (pid : ℕ) (asset : ReleaseAsset) (dir : Dir) (k : ℕ) :
    ∃ done rest,
      Swapped pid env.extract dir (applyOps ((installAsset env pid asset).1.take k) dir) done rest ∧
        (done ≠ [] → Verified env asset) ∧
        ((installAsset env pid asset).1.length ≤ k →
          (installAsset env pid asset).2 = .ok () ∧ rest = [] ∨
            ∃ e, (installAsset env pid asset).2 = .error e ∧ rest ≠ [] ∧
              (e.cls ≠ .swapFailed ∧ (installAsset env pid asset).1 = [] ∨ e.cls = .swapFailed)) := by
  rw [installAsset]
  cases hprepare : prepareAsset env asset with
  | error e =>
    refine ⟨[], binaries, Swapped.nothing fun _ _ => by simp [applyOps], fun h => absurd rfl h,
      fun _ => Or.inr ⟨e, rfl, by decide, Or.inl ⟨cls_of_prepareAsset hprepare, rfl⟩⟩⟩
  | ok _ =>
    obtain ⟨done, rest, hswapped, hend⟩ := swapBinaries_take env.toSwapEnv pid env.extract dir k
    refine ⟨done, rest, hswapped, fun _ => verified_of_prepareAsset hprepare, fun h => ?_⟩
    refine (hend h).imp_right ?_
    rintro ⟨e, he, hcls, hrest⟩
    exact ⟨e, he, hrest, Or.inr hcls⟩

end Fkst.Update
