import Whispee.Lib.Disk
import Whispee.Lib.Transition
import Whispee.Ratchet.DoubleRatchet
import Whispee.Server.Auth

/-!
# The files of the native process

`write_atomically` and `Paths` of `apps/desktop/src/store.rs`, `DeviceSecrets` of `cipher.rs`, and the
commands of `commands.rs` that write or remove a file, over a directory that may lose power. The
commands run one after the other. A cut may come between any two operations on the files, and any of
them may fail. The directory itself is there, and stays: the entry that `create_dir_all` made of it in
its parent, which nothing syncs, is taken as durable.
-/

namespace Whispee.Desktop

open Disk Transition
open Server.Auth (decodeStandard)

/-! ## Paths -/

inductive File where
  | session
  | secrets
  | master
  | server
  deriving DecidableEq

def File.name : File → String
  | .session => "session.bin"
  | .secrets => "secrets.bin"
  | .master => "master.bin"
  | .server => "server.txt"

/-- `with_extension`, of a name that has one. -/
def withExtension (name extension : String) : String :=
  .ofList (name.toList.reverse.dropWhile (· ≠ '.')).reverse ++ extension

def File.temporary (file : File) : String := withExtension file.name "tmp"

/-- The names of the files, the temporaries aside. -/
def IsFile (name : String) : Prop := ∃ file : File, file.name = name

/-! ## The device secrets -/

def VERSION : UInt8 := 1

def NONCE_LEN : Nat := 12

/-- A device's two secrets. -/
structure DeviceSecrets where
  sealKey : Bytes
  signing : Bytes
  length_sealKey : sealKey.length = 32
  length_signing : signing.length = 32
  deriving DecidableEq

namespace DeviceSecrets

def encode (secrets : DeviceSecrets) : Bytes := VERSION :: secrets.sealKey ++ secrets.signing

/-- `InvalidData`. -/
inductive Invalid where
  | size
  | version
  deriving DecidableEq

def decode (content : Bytes) : Except Invalid DeviceSecrets :=
  if h : content.length = 1 + 32 + 32 then
    if content.head? ≠ some VERSION then .error .version
    else .ok ⟨(content.drop 1).take 32, content.drop 33, by simp [h], by simp [h]⟩
  else .error .size

section
variable (P : Ratchet.Primitives)

/-- Encrypts for local persistence, with a nonce of its own. -/
def sealState (secrets : DeviceSecrets) (nonce plaintext : Bytes) : Option Bytes :=
  (P.aesEncrypt secrets.sealKey nonce plaintext []).map (nonce ++ ·)

/-- Decrypts what it has encrypted. -/
def openState (secrets : DeviceSecrets) (blob : Bytes) : Option Bytes :=
  if blob.length ≤ NONCE_LEN then none
  else P.aesDecrypt secrets.sealKey (blob.take NONCE_LEN) (blob.drop NONCE_LEN) []

end

end DeviceSecrets

/-! ## One write -/

/-- The operation `write_atomically` comes to next. -/
inductive Stage where
  | create
  | write
  | sync
  | rename
  | syncDir
  deriving DecidableEq

structure Write where
  target : File
  content : Bytes
  stage : Stage
  deriving DecidableEq

inductive Process where
  | off
  /-- The secrets are written for the first time, and get their permissions. -/
  | opening (secrets : DeviceSecrets) (stage : Stage)
  | permitting (secrets : DeviceSecrets)
  /-- The commands are served, one of them writing. -/
  | running (secrets : DeviceSecrets) (write : Option Write)
  deriving DecidableEq

namespace Process

def write? : Process → Option Write
  | .opening secrets stage => some ⟨.secrets, secrets.encode, stage⟩
  | .running _ write => write
  | _ => none

/-- The write goes on. -/
def goOn (p : Process) (stage : Stage) : Process :=
  match p with
  | .opening secrets _ => .opening secrets stage
  | .running secrets write => .running secrets (write.map ({ · with stage }))
  | p => p

/-- It has ended well. -/
def finish : Process → Process
  | .opening secrets _ => .permitting secrets
  | .running secrets _ => .running secrets none
  | p => p

/-- It has failed: the application does not start, or the command says so. -/
def abandon : Process → Process
  | .running secrets _ => .running secrets none
  | _ => .off

end Process

/-! ## The device -/

structure State where
  disk : Dir String UInt8
  process : Process
  /-- What each name has held since the directory was last synced. -/
  past : String → List (Option Bytes)
  /-- What has been asked of the files: to hold a content, or to be gone. -/
  asked : List (File × Option Bytes)

inductive Action where
  /-- The application starts, with the secrets it would draw. -/
  | start (fresh : DeviceSecrets)
  | proceed
  /-- The operation fails, the file left as it may be. -/
  | fail (torn : Bytes)
  | sessionSave (content : String)
  | sessionClear
  /-- The master key, sealed under a nonce. -/
  | masterSeal (master : String) (nonce : Bytes)
  | masterClear
  /-- An address that has passed `normalise`. -/
  | serverSet (address : String)
  | quit
  /-- The power goes: the changes of the directory that are kept, and what is found in the files that
  were not synced. -/
  | cut (mask : List Bool) (garbage : Nat → Bytes)

namespace State

/-- A command writes a file. -/
def begin (s : State) (secrets : DeviceSecrets) (target : File) (content : Bytes) : State :=
  { s with
    process := .running secrets (some ⟨target, content, .create⟩)
    asked := s.asked ++ [(target, some content)] }

/-- `remove_file`: what is not there is no error. -/
def removeFile (s : State) (file : File) : State :=
  match s.disk.names file.name with
  | some _ =>
    { s with
      disk := s.disk.remove file.name
      past := Function.update s.past file.name (s.past file.name ++ [none])
      asked := s.asked ++ [(file, none)] }
  | none => { s with asked := s.asked ++ [(file, none)] }

/-- The next operation of a write. -/
def operate (s : State) (w : Write) : State :=
  match w.stage with
  | .create =>
    { s with disk := s.disk.create w.target.temporary, process := s.process.goOn .write }
  | .write =>
    { s with disk := s.disk.write w.target.temporary w.content, process := s.process.goOn .sync }
  | .sync =>
    { s with disk := s.disk.sync w.target.temporary, process := s.process.goOn .rename }
  | .rename =>
    { s with
      disk := s.disk.rename w.target.temporary w.target.name
      process := s.process.goOn .syncDir
      past := Function.update s.past w.target.name
        (s.past w.target.name ++ [s.disk.read w.target.temporary]) }
  | .syncDir =>
    { s with
      disk := s.disk.syncDir
      process := s.process.finish
      past := fun name => [s.disk.read name] }

/-- It fails. That of the directory is let pass. -/
def falter (s : State) (w : Write) (torn : Bytes) : State :=
  match w.stage with
  | .write =>
    { s with disk := s.disk.write w.target.temporary torn, process := s.process.abandon }
  | .syncDir => { s with process := s.process.finish }
  | _ => { s with process := s.process.abandon }

/-- `load_or_create`, up to its write. -/
def load (s : State) (fresh : DeviceSecrets) : State :=
  match s.disk.read File.secrets.name with
  | some content =>
    match DeviceSecrets.decode content with
    | .ok secrets => { s with process := .running secrets none }
    | .error _ => s
  | none =>
    { s with
      process := .opening fresh .create
      asked := s.asked ++ [(.secrets, some fresh.encode)] }

def step (P : Ratchet.Primitives) (s : State) : Action → Option State
  | .start fresh => if s.process = .off then some (s.load fresh) else none
  | .proceed =>
    match s.process.write?, s.process with
    | some w, _ => some (s.operate w)
    | none, .permitting secrets => some { s with process := .running secrets none }
    | none, _ => none
  | .fail torn =>
    match s.process.write?, s.process with
    | some w, _ => some (s.falter w torn)
    | none, .permitting _ => some { s with process := .off }
    | none, _ => none
  | .sessionSave content =>
    match s.process with
    | .running secrets none =>
      some ((decodeStandard content).elim s fun bytes => s.begin secrets .session bytes)
    | _ => none
  | .sessionClear =>
    match s.process with
    | .running _ none => some (s.removeFile .session)
    | _ => none
  | .masterSeal master nonce =>
    match s.process with
    | .running secrets none =>
      some (((decodeStandard master).bind (secrets.sealState P nonce)).elim s fun bytes =>
        s.begin secrets .master bytes)
    | _ => none
  | .masterClear =>
    match s.process with
    | .running _ none => some (s.removeFile .master)
    | _ => none
  | .serverSet address =>
    match s.process with
    | .running secrets none => some (s.begin secrets .server (asBytes address))
    | _ => none
  | .quit => some { s with process := .off }
  | .cut mask garbage =>
    let disk := s.disk.crash mask garbage
    some { s with disk, process := .off, past := fun name => [disk.read name] }

end State

/-- `session_load`. -/
def State.sessionLoad (s : State) : Option String := (s.disk.read File.session.name).map Base64.encode

/-- `master_open`, its prompt aside; without a value, the decryption has failed. -/
def State.masterOpen (P : Ratchet.Primitives) (s : State) (secrets : DeviceSecrets) :
    Option (Option String) :=
  match s.disk.read File.master.name with
  | none => some none
  | some blob => (secrets.openState P blob).map fun clear => some (Base64.encode clear)

/-- A device where nothing was ever written. The directory is there, and durably so. -/
def empty : State := ⟨.empty, .off, fun _ => [none], []⟩

variable {P : Ratchet.Primitives}

/-! ## Names -/

theorem File.name_injective {file file' : File} (h : file.name = file'.name) : file = file' := by
  cases file <;> cases file' <;> first | rfl | exact absurd h (by decide)

theorem File.temporary_not_isFile (file : File) : ¬ IsFile file.temporary := by
  rintro ⟨file', h⟩
  cases file <;> cases file' <;> exact absurd h (by decide)

theorem File.isFile (file : File) : IsFile file.name := ⟨file, rfl⟩

theorem File.name_ne_temporary (file file' : File) : file.name ≠ file'.temporary :=
  fun h => file'.temporary_not_isFile ⟨file, h⟩

/-! ## The secrets and back -/

namespace DeviceSecrets

theorem decode_encode (secrets : DeviceSecrets) : decode secrets.encode = .ok secrets := by
  obtain ⟨sealKey, signing, hseal, hsigning⟩ := secrets
  have hlength : (VERSION :: sealKey ++ signing).length = 1 + 32 + 32 := by
    simp [hseal, hsigning, Nat.add_comm]
  have hkey : ((VERSION :: sealKey ++ signing).drop 1).take 32 = sealKey := by
    rw [List.cons_append, List.drop_one, List.tail_cons, ← hseal, List.take_left]
  have hrest : (VERSION :: sealKey ++ signing).drop 33 = signing := by
    rw [List.cons_append, List.drop_succ_cons, ← hseal, List.drop_left]
  change decode (VERSION :: sealKey ++ signing) = _
  rw [decode, dif_pos hlength, if_neg (by simp)]
  simp only [hkey, hrest]

theorem encode_of_decode (h : decode content = .ok secrets) : secrets.encode = content := by
  unfold decode at h
  split at h
  next hlength =>
    split at h
    next => cases h
    next hversion =>
      cases h
      cases content with
      | nil => cases hlength
      | cons version rest =>
        obtain rfl : version = VERSION := by simpa using hversion
        change VERSION :: (rest.take 32 ++ rest.drop 32) = _
        rw [List.take_append_drop]
  next => cases h

theorem encode_injective {secrets secrets' : DeviceSecrets} (h : secrets.encode = secrets'.encode) :
    secrets = secrets' := by
  have hdecode := congrArg decode h
  rw [decode_encode, decode_encode] at hdecode
  exact Except.ok.inj hdecode

end DeviceSecrets

/-! ## What a step can do -/

namespace Action

/-- The file a command is about. -/
def target? : Action → Option File
  | .sessionSave _ | .sessionClear => some .session
  | .masterSeal .. | .masterClear => some .master
  | .serverSet _ => some .server
  | _ => none

theorem target?_ne_secrets {a : Action} (h : a.target? = some file) : file ≠ .secrets := by
  rintro rfl
  cases a <;> cases h

end Action

inductive Next (s : State) : Action → State → Prop where
  | idle : Next s a s
  | load : Next s (.start fresh) (s.load fresh)
  | operate : s.process.write? = some w → Next s .proceed (s.operate w)
  | falter : s.process.write? = some w → Next s (.fail torn) (s.falter w torn)
  | permitted : s.process = .permitting secrets →
    Next s .proceed { s with process := .running secrets none }
  | refused : Next s (.fail torn) { s with process := .off }
  | begin : s.process = .running secrets none → a.target? = some target →
    Next s a (s.begin secrets target content)
  | removeFile {target : File} : s.process = .running secrets none → a.target? = some target →
    Next s a (s.removeFile target)
  | quit : Next s .quit { s with process := .off }
  | cut : Next s (.cut mask garbage) { s with
      disk := s.disk.crash mask garbage
      process := .off
      past := fun name => [(s.disk.crash mask garbage).read name] }

theorem next_of_step {s : State} (h : s.step P a = some s') : Next s a s' := by
  cases a with
  | start fresh =>
    simp only [State.step, Option.ite_none_right_eq_some] at h
    obtain ⟨_, h⟩ := h
    cases h
    exact .load
  | proceed =>
    simp only [State.step] at h
    split at h
    next hwrite => cases h; exact .operate hwrite
    next hprocess => cases h; exact .permitted hprocess
    next => cases h
  | fail torn =>
    simp only [State.step] at h
    split at h
    next hwrite => cases h; exact .falter hwrite
    next => cases h; exact .refused
    next => cases h
  | sessionSave content =>
    simp only [State.step] at h
    split at h
    next hprocess =>
      cases h
      cases decodeStandard content with
      | none => exact .idle
      | some bytes => exact .begin hprocess rfl
    next => cases h
  | masterSeal master nonce =>
    simp only [State.step] at h
    split at h
    next secrets hprocess =>
      cases h
      cases (decodeStandard master).bind (secrets.sealState P nonce) with
      | none => exact .idle
      | some bytes => exact .begin hprocess rfl
    next => cases h
  | serverSet address =>
    simp only [State.step] at h
    split at h
    next hprocess => cases h; exact .begin hprocess rfl
    next => cases h
  | sessionClear =>
    simp only [State.step] at h
    split at h
    next hprocess => cases h; exact .removeFile hprocess rfl
    next => cases h
  | masterClear =>
    simp only [State.step] at h
    split at h
    next hprocess => cases h; exact .removeFile hprocess rfl
    next => cases h
  | quit => cases h; exact .quit
  | cut mask garbage => cases h; exact .cut

/-! ## The process -/

namespace Process

/-- What it serves its commands with, or is about to. -/
def secrets? : Process → Option DeviceSecrets
  | .permitting secrets | .running secrets _ => some secrets
  | _ => none

variable {p : Process}

theorem write?_goOn (h : p.write? = some w) (stage : Stage) :
    (p.goOn stage).write? = some { w with stage } := by
  cases p with
  | opening secrets stage' => cases h; rfl
  | running secrets write => cases h; rfl
  | _ => cases h

@[simp] theorem write?_finish (p : Process) : p.finish.write? = p.abandon.write? := by
  cases p <;> rfl

@[simp] theorem write?_abandon (p : Process) : p.abandon.write? = none := by
  cases p <;> rfl

@[simp] theorem secrets?_goOn (p : Process) (stage : Stage) : (p.goOn stage).secrets? = p.secrets? := by
  cases p <;> rfl

theorem secrets?_abandon (h : p.abandon.secrets? = some secrets) : p.secrets? = some secrets := by
  cases p with
  | running => exact h
  | _ => cases h

theorem secrets?_finish (h : p.finish.secrets? = some secrets) :
    p.secrets? = some secrets ∨ ∃ stage, p.write? = some ⟨.secrets, secrets.encode, stage⟩ := by
  cases p with
  | opening secrets' stage => cases h; exact .inr ⟨stage, rfl⟩
  | off => cases h
  | permitting => exact .inl h
  | running => exact .inl h

end Process

/-! ## What is kept -/

/-- What the temporary holds by now. -/
def Staged (d : Dir String UInt8) (w : Write) : Prop :=
  match w.stage with
  | .create => True
  | .write => ∃ inode, d.names w.target.temporary = some inode
  | .sync => ∃ inode, d.names w.target.temporary = some inode ∧ d.content inode = w.content
  | .rename => ∃ inode, d.names w.target.temporary = some inode ∧ d.content inode = w.content ∧
    d.synced inode
  | .syncDir => d.read w.target.name = some w.content

structure Kept (s : State) : Prop where
  careful : Dir.Careful IsFile s.disk s.past
  staged : ∀ {w}, s.process.write? = some w → Staged s.disk w
  /-- No command writes the secrets. -/
  aside : ∀ {secrets w}, s.process.secrets? = some secrets → s.process.write? = some w →
    w.target ≠ .secrets
  live : ∀ {secrets}, s.process.secrets? = some secrets →
    s.disk.read File.secrets.name = some secrets.encode

namespace Kept

variable {s : State}

theorem empty : Kept empty where
  careful := .empty
  staged := nofun
  aside := nofun
  live := nofun

/-- The process is off. -/
theorem of_off (careful : Dir.Careful IsFile s.disk s.past) (h : s.process = .off) : Kept s where
  careful
  staged hwrite := by rw [h] at hwrite; cases hwrite
  aside hsecrets := by rw [h] at hsecrets; cases hsecrets
  live hsecrets := by rw [h] at hsecrets; cases hsecrets

/-- It serves its commands, none of them writing. -/
theorem of_served (careful : Dir.Careful IsFile s.disk s.past) (h : s.process.write? = none)
    (live : ∀ {secrets}, s.process.secrets? = some secrets →
      s.disk.read File.secrets.name = some secrets.encode) : Kept s where
  careful
  staged hwrite := by rw [h] at hwrite; cases hwrite
  aside _ hwrite := by rw [h] at hwrite; cases hwrite
  live

/-- The write has come to its next operation. -/
theorem goOn (h : Kept s) (hwrite : s.process.write? = some w) {d : Dir String UInt8}
    {past : String → List (Option Bytes)} (careful : Dir.Careful IsFile d past)
    (staged : Staged d { w with stage })
    (live : w.target ≠ .secrets → d.read File.secrets.name = s.disk.read File.secrets.name) :
    Kept { s with disk := d, process := s.process.goOn stage, past } where
  careful
  staged hwrite' := by
    rw [Process.write?_goOn hwrite] at hwrite'
    exact Option.some.inj hwrite' ▸ staged
  aside hsecrets hwrite' := by
    rw [Process.secrets?_goOn] at hsecrets
    rw [Process.write?_goOn hwrite] at hwrite'
    cases hwrite'
    have hne := h.aside hsecrets hwrite
    exact hne
  live hsecrets := by
    rw [Process.secrets?_goOn] at hsecrets
    exact (live (h.aside hsecrets hwrite)).trans (h.live hsecrets)

/-- What a temporary holds by now, with its file. -/
theorem operate (h : Kept s) (hwrite : s.process.write? = some w) : Kept (s.operate w) := by
  have hstaged := h.staged hwrite
  have htemporary := w.target.temporary_not_isFile
  obtain ⟨target, content, stage⟩ := w
  cases stage with
  | create =>
    exact h.goOn hwrite (h.careful.create htemporary) (Dir.names_create ..) fun _ =>
      h.careful.read_create htemporary File.secrets.isFile
  | write =>
    obtain ⟨inode, hinode⟩ := hstaged
    exact h.goOn hwrite (h.careful.write htemporary content) ⟨inode, Dir.content_write hinode content⟩
      fun _ => h.careful.read_write htemporary File.secrets.isFile content
  | sync =>
    obtain ⟨inode, hinode, hcontent⟩ := hstaged
    obtain ⟨hinode', hcontent', hsynced⟩ := Dir.synced_sync hinode
    exact h.goOn hwrite (h.careful.sync htemporary) ⟨inode, hinode', hcontent'.trans hcontent, hsynced⟩
      fun _ => Dir.read_sync ..
  | rename =>
    obtain ⟨inode, hinode, hcontent, hsynced⟩ := hstaged
    have hread : s.disk.read target.temporary = some (s.disk.content inode) := by
      rw [Dir.read, hinode, Option.map_some]
    have hcareful := h.careful.rename htemporary target.isFile hinode hsynced
    rw [← hread] at hcareful
    refine h.goOn hwrite hcareful ?_ fun hne => ?_
    · change (s.disk.rename target.temporary target.name).read target.name = some content
      rw [Dir.read_rename hinode, if_pos rfl, hcontent]
    · change (s.disk.rename target.temporary target.name).read File.secrets.name = _
      rw [Dir.read_rename hinode, if_neg fun heq => hne (File.name_injective heq).symm,
        if_neg (File.name_ne_temporary _ _)]
  | syncDir =>
    refine .of_served h.careful.syncDir ?_ fun hsecrets => ?_
    · exact (Process.write?_finish _).trans (Process.write?_abandon _)
    · rcases Process.secrets?_finish hsecrets with hsecrets | ⟨stage, hwrite'⟩
      · exact h.live hsecrets
      · cases hwrite.symm.trans hwrite'
        exact hstaged

theorem falter (h : Kept s) (hwrite : s.process.write? = some w) (torn : Bytes) :
    Kept (s.falter w torn) := by
  have htemporary := w.target.temporary_not_isFile
  have hstaged := h.staged hwrite
  obtain ⟨target, content, stage⟩ := w
  cases stage with
  | write =>
    refine .of_served (h.careful.write htemporary torn) (Process.write?_abandon _) fun hsecrets => ?_
    exact (h.careful.read_write htemporary File.secrets.isFile torn).trans
      (h.live (Process.secrets?_abandon hsecrets))
  | syncDir =>
    refine .of_served h.careful ?_ fun hsecrets => ?_
    · exact (Process.write?_finish _).trans (Process.write?_abandon _)
    · rcases Process.secrets?_finish hsecrets with hsecrets | ⟨stage, hwrite'⟩
      · exact h.live hsecrets
      · cases hwrite.symm.trans hwrite'
        exact hstaged
  | _ =>
    exact .of_served h.careful (Process.write?_abandon _) fun hsecrets =>
      h.live (Process.secrets?_abandon hsecrets)

theorem load (h : Kept s) (fresh : DeviceSecrets) : Kept (s.load fresh) := by
  unfold State.load
  cases hread : s.disk.read File.secrets.name with
  | none =>
    exact ⟨h.careful, fun hwrite => by cases hwrite; trivial, nofun, nofun⟩
  | some content =>
    dsimp only
    split
    next secrets hdecode =>
      refine .of_served h.careful rfl fun hsecrets => ?_
      cases hsecrets
      exact hread.trans (congrArg some (DeviceSecrets.encode_of_decode hdecode).symm)
    next => exact h

theorem begin (h : Kept s) (hprocess : s.process = .running secrets none) (hne : target ≠ .secrets)
    (content : Bytes) : Kept (s.begin secrets target content) where
  careful := h.careful
  staged hwrite := by cases hwrite; trivial
  aside _ hwrite := by cases hwrite; exact hne
  live hsecrets := by
    cases hsecrets
    exact h.live (hprocess ▸ rfl)

theorem removeFile (h : Kept s) (hprocess : s.process = .running secrets none)
    (hne : target ≠ .secrets) : Kept (s.removeFile target) := by
  unfold State.removeFile
  cases s.disk.names target.name with
  | none => exact ⟨h.careful, h.staged, h.aside, h.live⟩
  | some inode =>
    refine .of_served (h.careful.remove target.isFile) (hprocess ▸ rfl) fun hsecrets => ?_
    change (s.disk.remove target.name).read File.secrets.name = _
    rw [Dir.read_remove, if_neg fun heq => hne (File.name_injective heq).symm]
    exact h.live hsecrets

theorem next (h : Kept s) (hnext : Next s a s') : Kept s' := by
  cases hnext with
  | idle => exact h
  | load => exact h.load _
  | operate hwrite => exact h.operate hwrite
  | falter hwrite => exact h.falter hwrite _
  | permitted hprocess =>
    refine .of_served h.careful rfl fun hsecrets => ?_
    cases hsecrets
    exact h.live (hprocess ▸ rfl)
  | refused => exact .of_off h.careful rfl
  | begin hprocess htarget => exact h.begin hprocess (Action.target?_ne_secrets htarget) _
  | removeFile hprocess htarget => exact h.removeFile hprocess (Action.target?_ne_secrets htarget)
  | quit => exact .of_off h.careful rfl
  | cut => exact .of_off (h.careful.crash ..) rfl

end Kept

theorem kept_of_reach {guard : State → Action → Prop} (h : Reach (State.step P) guard s s')
    (start : Kept s) : Kept s' :=
  h.invariant start fun hkept _ hstep => hkept.next (next_of_step hstep)

/-! ## What a file may come to hold -/

/-- The write under way is to leave this in the file. -/
def State.Underway (s : State) (file : File) (v : Option Bytes) : Prop :=
  ∃ w, s.process.write? = some w ∧ w.target = file ∧ v = some w.content

/-- Only the secrets are asked for without a command, and only where there are none. -/
def Asks (s : State) (a : Action) (file : File) : Prop :=
  a.target? = some file ∨ file = .secrets ∧ s.disk.read File.secrets.name = none

theorem asked_of_next (h : Next s a s') :
    s'.asked = s.asked ∨ ∃ file v, s'.asked = s.asked ++ [(file, v)] ∧ Asks s a file := by
  cases h with
  | load =>
    unfold State.load
    cases hread : s.disk.read File.secrets.name with
    | none => exact .inr ⟨_, _, rfl, .inr ⟨rfl, hread⟩⟩
    | some content =>
      dsimp only
      split <;> exact .inl rfl
  | @operate w =>
    obtain ⟨target, content, stage⟩ := w
    cases stage <;> exact .inl rfl
  | @falter w =>
    obtain ⟨target, content, stage⟩ := w
    cases stage <;> exact .inl rfl
  | begin _ htarget => exact .inr ⟨_, _, rfl, .inl htarget⟩
  | removeFile _ htarget =>
    refine .inr ⟨_, none, ?_, .inl htarget⟩
    unfold State.removeFile
    split <;> rfl
  | _ => exact .inl rfl

/-- What is new among what a file has held comes of the write under way, or of the command. -/
theorem past_of_next (hkept : Kept s) (h : Next s a s') (file : File) (hmem : v ∈ s'.past file.name) :
    v ∈ s.past file.name ∨ s.Underway file v ∨ s'.asked = s.asked ++ [(file, v)] := by
  have hread := hkept.careful.read_mem file.isFile
  cases h with
  | load =>
    left
    revert hmem
    unfold State.load
    cases s.disk.read File.secrets.name with
    | none => exact fun hmem => hmem
    | some content =>
      dsimp only
      split <;> exact fun hmem => hmem
  | @operate w hwrite =>
    have hstaged := hkept.staged hwrite
    obtain ⟨target, content, stage⟩ := w
    cases stage with
    | rename =>
      obtain ⟨inode, hinode, hcontent, _⟩ := hstaged
      change v ∈ Function.update s.past target.name
        (s.past target.name ++ [s.disk.read target.temporary]) file.name at hmem
      by_cases hsame : file.name = target.name
      · rw [hsame, Function.update_self, List.mem_append, ← hsame, List.mem_singleton] at hmem
        refine hmem.imp_right fun hv => .inl ⟨_, hwrite, (File.name_injective hsame).symm, ?_⟩
        rw [hv, Dir.read, hinode, Option.map_some, hcontent]
      · rw [Function.update_of_ne hsame] at hmem
        exact .inl hmem
    | syncDir => exact .inl (List.mem_singleton.1 hmem ▸ hread)
    | _ => exact .inl hmem
  | @falter w =>
    left
    obtain ⟨target, content, stage⟩ := w
    cases stage <;> exact hmem
  | @removeFile _ _ target =>
    unfold State.removeFile at hmem ⊢
    cases hnames : s.disk.names target.name with
    | none =>
      rw [hnames] at hmem
      exact .inl hmem
    | some inode =>
      rw [hnames] at hmem
      change v ∈ Function.update s.past target.name (s.past target.name ++ [none]) file.name at hmem
      by_cases hsame : file.name = target.name
      · rw [hsame, Function.update_self, List.mem_append, ← hsame, List.mem_singleton] at hmem
        obtain rfl := File.name_injective hsame
        rcases hmem with hmem | rfl
        · exact .inl hmem
        · exact .inr (.inr rfl)
      · rw [Function.update_of_ne hsame] at hmem
        exact .inl hmem
  | @cut mask garbage => exact .inl (List.mem_singleton.1 hmem ▸ hkept.careful.survives file.isFile ..)
  | _ => exact .inl hmem

/-- And so does a write that is under way. -/
theorem underway_of_next (h : Next s a s') (hunder : s'.Underway file v) :
    s.Underway file v ∨ s'.asked = s.asked ++ [(file, v)] := by
  obtain ⟨w', hwrite', rfl, rfl⟩ := hunder
  cases h with
  | idle => exact .inl ⟨w', hwrite', rfl, rfl⟩
  | load =>
    revert hwrite'
    unfold State.load
    cases s.disk.read File.secrets.name with
    | none => exact fun hwrite' => by cases hwrite'; exact .inr rfl
    | some content =>
      dsimp only
      split
      next => exact nofun
      next => exact fun hwrite' => .inl ⟨w', hwrite', rfl, rfl⟩
  | @operate w hwrite =>
    left
    obtain ⟨target, content, stage⟩ := w
    cases stage with
    | syncDir =>
      have hnone := (Process.write?_finish s.process).trans (Process.write?_abandon _)
      cases hnone.symm.trans hwrite'
    | _ =>
      cases (Process.write?_goOn hwrite _).symm.trans hwrite'
      exact ⟨_, hwrite, rfl, rfl⟩
  | @falter w hwrite =>
    obtain ⟨target, content, stage⟩ := w
    cases stage with
    | syncDir =>
      have hnone := (Process.write?_finish s.process).trans (Process.write?_abandon _)
      cases hnone.symm.trans hwrite'
    | _ => cases (Process.write?_abandon s.process).symm.trans hwrite'
  | begin => cases hwrite'; exact .inr rfl
  | removeFile hprocess =>
    revert hwrite'
    unfold State.removeFile
    split <;> exact fun hwrite' => .inl ⟨w', hwrite', rfl, rfl⟩
  | _ => cases hwrite'

/-! ## Runs -/

/-- What a file holds in a later state: what it has held, what was under way, or what was asked of it
since. -/
def Due (s : State) (since : List (File × Option Bytes)) (file : File) (v : Option Bytes) : Prop :=
  v ∈ s.past file.name ∨ s.Underway file v ∨ (file, v) ∈ since

structure Follows (s s' : State) (since : List (File × Option Bytes)) : Prop where
  asked : s'.asked = s.asked ++ since
  past : ∀ {file v}, v ∈ s'.past file.name → Due s since file v
  underway : ∀ {file v}, s'.Underway file v → Due s since file v

theorem Due.mono (h : Due s since file v) (more : List (File × Option Bytes)) :
    Due s (since ++ more) file v :=
  h.imp_right (Or.imp_right (List.mem_append_left more))

theorem Follows.refl (s : State) : Follows s s [] where
  asked := (List.append_nil _).symm
  past := .inl
  underway h := .inr (.inl h)

theorem Follows.next (h : Follows s t since) (hkept : Kept t) (hnext : Next t a u) :
    ∃ more, Follows s u (since ++ more) := by
  obtain ⟨more, hmore⟩ : ∃ more, u.asked = t.asked ++ more := by
    rcases asked_of_next hnext with hsame | ⟨file, v, hmore, _⟩
    · exact ⟨[], hsame.trans (List.append_nil _).symm⟩
    · exact ⟨_, hmore⟩
  have new : ∀ {file v}, u.asked = t.asked ++ [(file, v)] → Due s (since ++ more) file v := by
    intro file v hnew
    obtain rfl := List.append_cancel_left (hmore.symm.trans hnew)
    exact .inr (.inr (List.mem_append_right _ (List.mem_singleton_self _)))
  refine ⟨more, by rw [hmore, h.asked, List.append_assoc], fun hmem => ?_, fun hunder => ?_⟩
  · rcases past_of_next hkept hnext _ hmem with hmem | hunder | hnew
    · exact (h.past hmem).mono more
    · exact (h.underway hunder).mono more
    · exact new hnew
  · rcases underway_of_next hnext hunder with hunder | hnew
    · exact (h.underway hunder).mono more
    · exact new hnew

theorem follows_of_reach (hkept : Kept s)
    (h : Reach (State.step P) (fun _ _ => True) s s') : ∃ since, Follows s s' since := by
  induction h with
  | refl => exact ⟨[], .refl s⟩
  | tail h _ hstep ih =>
    obtain ⟨since, hfollows⟩ := ih
    obtain ⟨more, hmore⟩ := hfollows.next (kept_of_reach h hkept) (next_of_step hstep)
    exact ⟨since ++ more, hmore⟩

/-! ## An application and its files -/

def adasSecrets : DeviceSecrets := ⟨.replicate 32 1, .replicate 32 2, rfl, rfl⟩

def othersSecrets : DeviceSecrets := ⟨.replicate 32 3, .replicate 32 4, rfl, rfl⟩

def adasNonce : Bytes := .replicate 12 5

/-- The first start, and a session. -/
def firstStart : List Action :=
  .start adasSecrets :: .replicate 6 .proceed ++ .sessionSave "AQID" :: .replicate 5 .proceed

/-- The power goes, and the application starts again. -/
def restart : List Action := [.cut [] fun _ => [], .start othersSecrets]

def smallStep : State → Action → Option State := State.step Ratchet.smallPrimitives

/-- The same, as long as a file is left alone. -/
def smallStepAside (file : File) (s : State) (a : Action) : Option State :=
  if a.target? ≠ some file then smallStep s a else none

/-- Whatever fails and whenever the power goes, a file is found as it was since the directory was last
synced, or whole with a content that was asked for it. -/
theorem old_or_new (h : Reach (State.step P) (fun _ _ => True) empty s)
    (h' : Reach (State.step P) (fun _ _ => True) s s') (file : File) :
    ∃ since, s'.asked = s.asked ++ since ∧
      (s'.disk.read file.name ∈ s.past file.name ∨ s.Underway file (s'.disk.read file.name) ∨
        (file, s'.disk.read file.name) ∈ since) := by
  have hkept := kept_of_reach h .empty
  obtain ⟨since, hfollows⟩ := follows_of_reach hkept h'
  exact ⟨since, hfollows.asked,
    hfollows.past ((kept_of_reach h' hkept).careful.read_mem file.isFile)⟩

/-- A second session is written when the power goes. -/
theorem old_or_new_cut : ∃ s s' : State,
    Reach smallStep (fun _ _ => True) empty s ∧
    Reach smallStep (fun _ _ => True) s s' ∧
    ∃ since, s'.asked = s.asked ++ since ∧
      (s'.disk.read File.session.name ∈ s.past File.session.name ∨
        s.Underway .session (s'.disk.read File.session.name) ∨
        (.session, s'.disk.read File.session.name) ∈ since) := by
  obtain ⟨s, hs, hs'⟩ : ∃ s, run smallStep empty firstStart = some s ∧
      (run smallStep s [.sessionSave "BAUG", .proceed, .proceed,
        .cut [] fun _ => []]).isSome := by
    have h : ((run smallStep empty firstStart).map fun s =>
        (run smallStep s [.sessionSave "BAUG", .proceed, .proceed,
          .cut [] fun _ => []]).isSome) = some true := by decide +kernel
    exact Option.map_eq_some_iff.1 h
  obtain ⟨s', hs'⟩ := Option.isSome_iff_exists.1 hs'
  exact ⟨s, s', reach_of_run hs, reach_of_run hs',
    old_or_new (reach_of_run hs) (reach_of_run hs') .session⟩

/-! ## A content that stays -/

/-- The file holds this content, and nothing is under way to change it. -/
structure Rests (s : State) (file : File) (content : Bytes) : Prop where
  past : ∀ {v}, v ∈ s.past file.name → v = some content
  underway : ∀ {v}, s.Underway file v → v = some content

theorem Rests.read (h : Rests s file content) (hkept : Kept s) :
    s.disk.read file.name = some content :=
  h.past (hkept.careful.read_mem file.isFile)

theorem Rests.next (h : Rests s file content) (hkept : Kept s) (hnext : Next s a s')
    (hother : a.target? ≠ some file) : Rests s' file content := by
  have none_asked : ∀ {v}, s'.asked ≠ s.asked ++ [(file, v)] := by
    intro v heq
    rcases asked_of_next hnext with hsame | ⟨file', v', hmore, htarget | ⟨rfl, hnone⟩⟩
    · rw [hsame] at heq
      cases List.append_cancel_left ((List.append_nil _).trans heq)
    · cases List.append_cancel_left (hmore.symm.trans heq)
      exact hother htarget
    · cases List.append_cancel_left (hmore.symm.trans heq)
      cases (h.read hkept).symm.trans hnone
  refine ⟨fun hmem => ?_, fun hunder => ?_⟩
  · rcases past_of_next hkept hnext file hmem with hmem | hunder | hnew
    · exact h.past hmem
    · exact h.underway hunder
    · exact absurd hnew none_asked
  · rcases underway_of_next hnext hunder with hunder | hnew
    · exact h.underway hunder
    · exact absurd hnew none_asked

theorem Rests.of_reach {guard : State → Action → Prop} (h : Rests s file content) (hkept : Kept s)
    (hother : ∀ t a, guard t a → a.target? ≠ some file)
    (hreach : Reach (State.step P) guard s s') : Rests s' file content := by
  induction hreach with
  | refl => exact h
  | tail hreach hguard hstep ih =>
    exact ih.next (kept_of_reach hreach hkept) (next_of_step hstep) (hother _ _ hguard)

/-- Once the directory is synced every file stays as it is. -/
theorem rests_of_synced {s : State} (h : s.disk.read file.name = some held) (target : File)
    (content : Bytes) : Rests (s.operate ⟨target, content, .syncDir⟩) file held where
  past hmem := (List.mem_singleton.1 hmem).trans h
  underway hunder := by
    obtain ⟨w, hwrite, _⟩ := hunder
    cases ((Process.write?_finish s.process).trans (Process.write?_abandon _)).symm.trans hwrite

theorem operate_of_step {s : State} (hwrite : s.process.write? = some w)
    (h : s.step P .proceed = some t) : t = s.operate w := by
  simp only [State.step, hwrite] at h
  exact (Option.some.inj h).symm

/-- Once a session is saved and the directory synced, `session_load` answers it, through failures,
restarts and power cuts, until the session is saved or cleared again. -/
theorem saved_loads (h : Reach (State.step P) (fun _ _ => True) empty s)
    (hwrite : s.process.write? = some ⟨.session, content, .syncDir⟩)
    (hstep : s.step P .proceed = some t)
    (h' : Reach (State.step P) (fun _ a => a.target? ≠ some .session) t s') :
    s'.sessionLoad = some (Base64.encode content) := by
  have hkept := kept_of_reach h .empty
  obtain rfl := operate_of_step hwrite hstep
  have hrests := (rests_of_synced (hkept.staged hwrite) .session content).of_reach
    (hkept.operate hwrite) (fun _ _ h => h) h'
  rw [State.sessionLoad, hrests.read (kept_of_reach h' (hkept.operate hwrite)), Option.map_some]

theorem saved_loads_restarted : ∃ s t s' : State,
    Reach smallStep (fun _ _ => True) empty s ∧
    s.process.write? = some ⟨.session, [1, 2, 3], .syncDir⟩ ∧
    smallStep s .proceed = some t ∧
    Reach smallStep (fun _ a => a.target? ≠ some .session) t s' ∧
    s'.sessionLoad = some (Base64.encode [1, 2, 3]) := by
  obtain ⟨s, hs, hwrite, hafter⟩ : ∃ s,
      run smallStep empty (firstStart.take 12) = some s ∧
        s.process.write? = some ⟨.session, [1, 2, 3], .syncDir⟩ ∧
        ((smallStep s .proceed).bind fun t =>
          run (smallStepAside .session) t restart).isSome := by
    have h : ((run smallStep empty (firstStart.take 12)).map fun s =>
        (s.process.write?, ((smallStep s .proceed).bind fun t =>
          run (smallStepAside .session) t restart).isSome)) =
        some (some ⟨.session, [1, 2, 3], .syncDir⟩, true) := by decide +kernel
    obtain ⟨s, hs, h⟩ := Option.map_eq_some_iff.1 h
    exact ⟨s, hs, Prod.mk.inj h⟩
  obtain ⟨s', hafter⟩ := Option.isSome_iff_exists.1 hafter
  obtain ⟨t, hstep, hrun⟩ := Option.bind_eq_some_iff.1 hafter
  have hreach : Reach smallStep (fun _ a => a.target? ≠ some .session) t s' :=
    reach_of_run_guarded hrun
  exact ⟨s, t, s', reach_of_run hs, hwrite, hstep, hreach,
    saved_loads (reach_of_run hs) hwrite hstep hreach⟩

theorem openState_sealState (lawful : P.Lawful)
    (tagged : ∀ {key nonce msg aad ciphertext : Bytes},
      P.aesEncrypt key nonce msg aad = some ciphertext → ciphertext.length = msg.length + 16)
    {secrets : DeviceSecrets} (hnonce : nonce.length = NONCE_LEN)
    (h : secrets.sealState P nonce clear = some blob) : secrets.openState P blob = some clear := by
  obtain ⟨ciphertext, hencrypt, rfl⟩ := Option.map_eq_some_iff.1 h
  have hlong : ¬ (nonce ++ ciphertext).length ≤ NONCE_LEN := by
    rw [List.length_append, hnonce, tagged hencrypt]
    omega
  rw [DeviceSecrets.openState, if_neg hlong, ← hnonce, List.take_left, List.drop_left]
  exact lawful.aesDecrypt_aesEncrypt hencrypt

/-- Once the master key is sealed and the directory synced, every later start of the application comes
to the same secrets, and `master_open` returns the key with them, through failures, restarts and power
cuts, until it is sealed anew or cleared. -/
theorem master_opens (lawful : P.Lawful)
    (tagged : ∀ {key nonce msg aad ciphertext : Bytes},
      P.aesEncrypt key nonce msg aad = some ciphertext → ciphertext.length = msg.length + 16)
    (hnonce : nonce.length = NONCE_LEN)
    (h : Reach (State.step P) (fun _ _ => True) empty s)
    (hprocess : s.process = .running secrets (some ⟨.master, blob, .syncDir⟩))
    (hseal : secrets.sealState P nonce master = some blob)
    (hstep : s.step P .proceed = some t)
    (h' : Reach (State.step P) (fun _ a => a.target? ≠ some .master) t s')
    (hprocess' : s'.process = .running secrets' write) :
    secrets' = secrets ∧ s'.masterOpen P secrets' = some (some (Base64.encode master)) := by
  have hkept := kept_of_reach h .empty
  have hwrite : s.process.write? = some ⟨.master, blob, .syncDir⟩ := hprocess ▸ rfl
  have hsecrets : s.process.secrets? = some secrets := hprocess ▸ rfl
  obtain rfl := operate_of_step hwrite hstep
  have hkept' := hkept.operate hwrite
  have hlast := kept_of_reach h' hkept'
  have hmaster := (rests_of_synced (hkept.staged hwrite) .master blob).of_reach hkept'
    (fun _ _ h => h) h'
  have hidentity := (rests_of_synced (hkept.live hsecrets) .master blob).of_reach hkept'
    (fun _ _ _ htarget => Action.target?_ne_secrets htarget rfl) h'
  have hsame : secrets' = secrets := by
    have hlive : s'.disk.read File.secrets.name = some secrets'.encode :=
      hlast.live (hprocess' ▸ rfl)
    exact DeviceSecrets.encode_injective (Option.some.inj (hlive.symm.trans (hidentity.read hlast)))
  refine ⟨hsame, ?_⟩
  rw [State.masterOpen, hmaster.read hlast]
  dsimp only
  rw [hsame, openState_sealState lawful tagged hnonce hseal, Option.map_some]

def adasBlob : Bytes := (adasSecrets.sealState Ratchet.smallPrimitives adasNonce [7, 8]).getD []

theorem master_opens_restarted : ∃ s t s' : State,
    Reach smallStep (fun _ _ => True) empty s ∧
    s.process = .running adasSecrets (some ⟨.master, adasBlob, .syncDir⟩) ∧
    smallStep s .proceed = some t ∧
    Reach smallStep (fun _ a => a.target? ≠ some .master) t s' ∧
    s'.masterOpen Ratchet.smallPrimitives adasSecrets = some (some (Base64.encode [7, 8])) := by
  obtain ⟨s, hs, hprocess, hafter⟩ : ∃ s,
      run smallStep empty
        (firstStart ++ .masterSeal "Bwg=" adasNonce :: .replicate 4 .proceed) = some s ∧
        s.process = .running adasSecrets (some ⟨.master, adasBlob, .syncDir⟩) ∧
        (((smallStep s .proceed).bind fun t =>
          run (smallStepAside .master) t restart).map (·.process)) =
          some (.running adasSecrets none) := by
    have h : ((run smallStep empty
        (firstStart ++ .masterSeal "Bwg=" adasNonce :: .replicate 4 .proceed)).map fun s =>
        (s.process, (((smallStep s .proceed).bind fun t =>
          run (smallStepAside .master) t restart).map (·.process)))) =
        some (.running adasSecrets (some ⟨.master, adasBlob, .syncDir⟩),
          some (.running adasSecrets none)) := by decide +kernel
    obtain ⟨s, hs, h⟩ := Option.map_eq_some_iff.1 h
    exact ⟨s, hs, Prod.mk.inj h⟩
  obtain ⟨s', hafter, hprocess'⟩ := Option.map_eq_some_iff.1 hafter
  obtain ⟨t, hstep, hrun⟩ := Option.bind_eq_some_iff.1 hafter
  have hreach : Reach smallStep (fun _ a => a.target? ≠ some .master) t s' :=
    reach_of_run_guarded hrun
  have hopens := master_opens Ratchet.smallPrimitives_lawful
    (fun h => by obtain rfl := Option.some.inj h; simp [Ratchet.digest]) rfl (reach_of_run hs)
    hprocess rfl hstep hreach hprocess'
  exact ⟨s, t, s', reach_of_run hs, hprocess, hstep, hreach, hopens.2⟩

end Whispee.Desktop
