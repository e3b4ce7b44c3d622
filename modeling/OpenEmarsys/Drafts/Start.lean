import OpenEmarsys.Importer.Csvfmt
import OpenEmarsys.Importer.Plan
import OpenEmarsys.Interleaving.Endings

/-! `handler.start`: the draft of an import, and the job that is queued when it is started.

The draft is an object in the store. A request reads it, has a job inserted and writes it back, and
other requests may come in between. Storage and the database answer; they do not fail.
-/

set_option autoImplicit false

namespace OpenEmarsys.Drafts

open Golang Importer Interleaving
open Javascript (Uuid)

structure DraftKey where
  tid : Uuid
  id : Uuid
  deriving DecidableEq

structure Draft where
  objectKey : String
  filename : String
  createdBy : String
  createdAt : Int
  /-- Set once started. -/
  jobID : Option Uuid
  deriving DecidableEq

def Draft.mark (d : Draft) (jobID : Uuid) : Draft := { d with jobID := some jobID }

structure JobParams extends Params where
  objectKey : String
  filename : String
  delimiter : String
  encoding : String

structure Job where
  id : Uuid
  params : JobParams
  createdBy : String
  /-- The request that queued the job, and its draft. The row has neither. -/
  request : Nat
  draft : DraftKey

structure Storage where
  drafts : DraftKey → Option Draft
  /-- The uploads. -/
  files : String → Option Bytes
  jobs : List Job
  primary : (jobs.map Job.id).Nodup

def Storage.jobsFor (storage : Storage) (key : DraftKey) : List Job := storage.jobs.filter (·.draft = key)

structure StartBody extends StartReq where
  delimiter : String
  encoding : String

structure Request where
  /-- The tenant of the token, and what `uuid.Parse` makes of the path. -/
  tid : Option Uuid
  id : Option Uuid
  subject : String
  /-- What the JSON decoder makes of it. -/
  body : Except String StartBody

def Request.key (r : Request) : Option DraftKey := r.tid.bind fun tid => r.id.map fun id => ⟨tid, id⟩

inductive Failure where
  | forbidden
  | notFound
  /-- `the import was already started`. -/
  | conflict
  | badRequest (text : String)
  | internal
  deriving DecidableEq

inductive Act where
  | getDraft (key : DraftKey)
  | readSample (objectKey : String)
  | insertJob (draft : DraftKey) (params : JobParams) (createdBy : String)
  | putDraft (key : DraftKey) (d : Draft)
  | getJob (id : Uuid)

def Reply : Act → Type
  | .getDraft _ => Option Draft
  | .readSample _ => Option (Bytes × Bool)
  | .insertJob .. => Uuid
  | .putDraft .. => Unit
  | .getJob _ => Option Job

def Storage.insert (storage : Storage) (job : Job) (fresh : job.id ∉ storage.jobs.map Job.id) : Storage where
  drafts := storage.drafts
  files := storage.files
  jobs := job :: storage.jobs
  primary := List.nodup_cons.mpr ⟨fresh, storage.primary⟩

/-- The choice is the ID of a job that is inserted. -/
def answer (pid : Nat) (storage : Storage) : (act : Act) → Uuid → Option (Reply act × Storage)
  | .getDraft key, _ => some (storage.drafts key, storage)
  | .readSample objectKey, _ => some ((storage.files objectKey).map readSample, storage)
  | .insertJob draft params createdBy, id =>
      if fresh : id ∉ storage.jobs.map Job.id
        then some (id, storage.insert ⟨id, params, createdBy, pid, draft⟩ fresh)
      else none
  | .putDraft key d, _ => some ((), { storage with drafts := Function.update storage.drafts key (some d) })
  | .getJob id, _ => some (storage.jobs.find? (·.id = id), storage)

def machine : Machine Act Reply Uuid Storage where
  act pid act id storage := answer pid storage act id
  disturb _ _ _ := none
  crash _ storage := storage

abbrev StartScript (α : Type) := Script Act Reply Failure α

abbrev Config := Interleaving.Config Request Act Reply Failure Job Storage

def ask (act : Act) : StartScript (Reply act) := Script.await act

def loadDraft (r : Request) : StartScript (DraftKey × Draft) :=
  match r.tid with
  | none => throw .forbidden
  | some tid =>
      match r.id with
      | none => throw .notFound
      | some id => do
          let found : Option Draft ← ask (.getDraft ⟨tid, id⟩)
          match found with
          | some d => pure (⟨tid, id⟩, d)
          | none => throw .notFound

def validOptions (delim enc : String) : Option String :=
  if delim ≠ "" ∧ ¬ delimiters.any (fun d => utf8 delim == [d]) then some "delimiter must be one of , ; tab |"
  else if enc ≠ "" ∧ enc ≠ "utf-8" ∧ enc ≠ "latin-1" then some "encoding must be utf-8 or latin-1"
  else none

def encodingName : Encoding → String
  | .utf8 => "utf-8"
  | .latin1 => "latin-1"

/-- What the caller left empty is guessed. -/
def filled (delim enc : String) (sample : Bytes × Bool) : String × String :=
  let guess := sniff sample.1 sample.2
  (if delim = "" then String.singleton (Char.ofNat guess.1.toNat) else delim, if enc = ""
    then encodingName guess.2 else enc)

def resolveOptions (objectKey delim enc : String) : StartScript (String × String) :=
  match validOptions delim enc with
  | some text => throw (.badRequest text)
  | none =>
      if delim ≠ "" ∧ enc ≠ "" then pure (delim, enc)
      else do
        let sample : Option (Bytes × Bool) ← ask (.readSample objectKey)
        match sample with
        | none => throw .notFound
        | some sample => pure (filled delim enc sample)

def enqueue (key : DraftKey) (r : Request) (d : Draft) (body : StartBody) : StartScript Uuid :=
  match Importer.enqueue body.toStartReq with
  | .error text => throw (.badRequest text)
  | .ok p => do
      let (delimiter, encoding) ← resolveOptions d.objectKey body.delimiter body.encoding
      ask (.insertJob key { p with objectKey := d.objectKey, filename := d.filename, delimiter, encoding }
        r.subject)

/-- Whether the draft could be stored is not looked at. -/
def finish (key : DraftKey) (d : Draft) (jobID : Uuid) : StartScript Job := do
  ask (.putDraft key (d.mark jobID))
  let found : Option Job ← ask (.getJob jobID)
  match found with
  | some j => pure j
  | none => throw .internal

def startDraft (key : DraftKey) (r : Request) (d : Draft) : StartScript Job :=
  if d.jobID.isSome then throw .conflict
  else
    match r.body with
    | .error text => throw (.badRequest ("invalid JSON body: " ++ text))
    | .ok body => do
        let jobID ← enqueue key r d body
        finish key d jobID

def start (r : Request) : StartScript Job := do
  let (key, d) ← loadDraft r
  startDraft key r d

end OpenEmarsys.Drafts
