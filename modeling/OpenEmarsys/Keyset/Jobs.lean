import OpenEmarsys.Encoding.Base64
import OpenEmarsys.Golang.Values
import OpenEmarsys.Golang.Instants
import OpenEmarsys.Jobs.Store
import OpenEmarsys.Keyset.Rows

/-! `Store.List` of the importer: a tenant's jobs, newest first.

Here the times of jobs are microseconds, as the table stores them. The first page is below a bound
that is a day ahead.
-/

set_option autoImplicit false

namespace OpenEmarsys.Keyset

open Javascript Golang Jobs

/-- `uuid.Max`. -/
def maxUuid : Uuid := 340282366920938463463374607431768211455

/-- `last.CreatedAt.Format(time.RFC3339Nano) + "|" + last.ID.String()`, in base64. -/
def jobCursor (job : Job) : String :=
  encodeToString (Utf8.encode (format job.createdAt ++ "|" ++ uuidText job.id))

/-- The time and the id of a text with a bar between. A text that is not UTF-8 has neither. -/
def readBar (text : String) : Option (Nat × Uuid) := do
  let (ts, id) := cut text '|'
  if text.toList.contains '|' && isUuid id then (parse ts).map fun time => (time, uuidOf id) else none

def decodeJobCursor (cursor : String) : Option (Nat × Uuid) :=
  (decodeString cursor).bind fun raw => (Utf8.decode raw).bind readBar

def byCreation (job : Job) : Key := toLex (job.createdAt, job.id)

def jobsOf (rows : List Job) (tenant : Uuid) : List Job := rows.filter fun job => job.tenantID == tenant

/-- `items = items[:limit]` with the cursor of the last one, if there are more. -/
def cutItems (items : List Job) (limit : Nat) : List Job × String :=
  if limit < items.length then (items.take limit, (items[limit - 1]?).elim "" jobCursor) else (items, "")

/-- What the rows are below: the cursor, or a day ahead of the clock. -/
def startOf (now : Nat) (cursor : String) : Except Failure (Nat × Uuid) :=
  if cursor = "" then .ok (now + day, maxUuid)
    else (decodeJobCursor cursor).elim (.error (.error "jobs: invalid cursor")) .ok

/-- Pages the tenant's jobs newest first. The cursor is opaque; next is "" on the last page. -/
def list (rows : List Job) (tenant : Option Uuid) (now : Nat) (cursor : String) (limit : Nat) :
    Except Failure (List Job × String) := do
  let (start, after) ← startOf now cursor
  let tenant ← tenant.elim (.error (.error "pg: no tenant")) .ok
  let found := (jobsOf rows tenant).filter fun job => rowLess job.createdAt job.id start after
  pure (cutItems ((newest byCreation found).take (limit + 1)) limit)

/-- `adminList`: a cursor that is "" is none. -/
def adminList (rows : List Job) (tenant : Option Uuid) (now limit : Nat) (cursor : Option String) :
    Except Failure (Page String Job) := do
  let (items, next) ← list rows tenant now (cursor.getD "") limit
  pure ⟨items, given (some next)⟩

theorem cut_mark {first mark second : String} {c : Char} (is : mark.toList = [c]) (plain : c ∉ first.toList) :
    cut (first ++ mark ++ second) c = (first, second) := by
  have text : (first ++ mark ++ second).toList = first.toList ++ (c :: second.toList) := by
    rw [String.toList_append, String.toList_append, is, List.append_assoc, List.singleton_append]
  have before : ∀ d ∈ first.toList, decide (d ≠ c) = true := by
    intro d member
    rw [decide_eq_true_eq]
    intro same
    exact plain (same ▸ member)
  rw [cut, text, List.takeWhile_append_of_pos before, List.dropWhile_append_of_pos before]
  simp

theorem readBar_texts {ts mark id : String} {time : Nat} (isMark : mark.toList = ['|'])
    (plain : '|' ∉ ts.toList) (is : isUuid id = true)
    (read : parse ts = some time) : readBar (ts ++ mark ++ id) = some (time, uuidOf id) := by
  have bar : (ts ++ mark ++ id).toList.contains '|' = true := by
    rw [List.contains_iff_mem, String.toList_append, String.toList_append, isMark]
    simp
  simp only [readBar, cut_mark isMark plain, bar, is, read, Bool.and_self, if_pos, Option.map_some]

theorem decodeJobCursor_jobCursor {job : Job} (early : Early (job.createdAt / 1000000))
    (small : job.id < 2 ^ 128) :
    decodeJobCursor (jobCursor job) = some (job.createdAt, job.id) := by
  obtain ⟨is, same⟩ := uuidText_isUuid small
  rw [decodeJobCursor, jobCursor, decodeString_encodeToString, Option.bind_some,
    Utf8.decode_encode, Option.bind_some,
    readBar_texts rfl (bar_not_format early) is (parse_format early), same]

theorem jobCursor_ne {job : Job} (early : Early (job.createdAt / 1000000)) (small : job.id < 2 ^ 128) :
    jobCursor job ≠ "" := by
  intro nothing
  have read := decodeJobCursor_jobCursor early small
  rw [nothing] at read
  have none_ : decodeJobCursor "" = none := by decide +kernel
  rw [none_] at read
  cases read

section
variable {now limit : Nat} {tenant : Uuid}

/-- `importer.jobs`, with ids that are made by `uuid.NewV7`. -/
structure JobTable (now : Nat) extends Table Job Uuid Job.id Job.id Job.createdAt now where
  below : ∀ row ∈ rows, row.id < maxUuid

theorem cutItems_page {items : List Job} (positive : 0 < limit) (texts : ∀ job ∈ items, jobCursor job ≠ "") :
    (⟨(cutItems items limit).1, given (some (cutItems items limit).2)⟩ : Page String Job) =
    pageOf limit jobCursor id items := by
  rw [cutItems, pageOf, List.map_id]
  split
  · next more =>
    have within : limit - 1 < items.length := by omega
    have last : (items.take limit).getLast? = some items[limit - 1] := by
      rw [List.getLast?_eq_getElem?, List.length_take_of_le (Nat.le_of_lt more),
        List.getElem?_take_of_lt (by omega),
        List.getElem?_eq_getElem within]
    have text : jobCursor items[limit - 1] ≠ "" := texts _ (List.getElem_mem within)
    rw [last, List.getElem?_eq_getElem within]
    simp [given, text]
  · next all =>
    rw [List.take_of_length_le (Nat.le_of_not_lt all)]
    simp [given]

theorem list_complete (jobs : JobTable now) (clock : Early ((now + day) / 1000000)) (positive : 0 < limit) :
    Complete (adminList jobs.rows (some tenant) now limit) id byCreation limit (jobsOf jobs.rows tenant) := by
  have among {job : Job} (member : job ∈ jobsOf jobs.rows tenant) : job ∈ jobs.rows :=
    (List.mem_filter.mp member).1
  refine complete_of_fetch jobCursor positive ?_ ?_
  · have apart : (jobs.rows.map byCreation).Nodup := by
      refine List.Nodup.of_map (fun key : Key => (ofLex key).2) ?_
      rw [List.map_map]
      exact jobs.distinct
    exact apart.sublist (List.filter_sublist.map byCreation)
  · intro bound last
    let limits : Nat × Uuid := bound.elim (now + day, maxUuid) fun row => (row.createdAt, row.id)
    have start : startOf now ((bound.map jobCursor).getD "") = .ok limits := by
      cases bound with
      | none => rfl
      | some row =>
        have member := among (last row rfl)
        have early := jobs.early clock member
        rw [Option.map_some, Option.getD_some, startOf, if_neg (jobCursor_ne early (jobs.small member)),
          decodeJobCursor_jobCursor early (jobs.small member)]
        rfl
    have found : ((jobsOf jobs.rows tenant).filter fun job =>
      rowLess job.createdAt job.id limits.1 limits.2) =
        (jobsOf jobs.rows tenant).filter fun job => bound.all
            fun last => decide (byCreation job < byCreation last) := by
      refine List.filter_congr fun job member => ?_
      cases bound with
      | none =>
        have below := jobs.below job (among member)
        have dated := jobs.dated job (among member)
        simp only [limits, Option.elim_none, Option.all_none, rowLess, Bool.or_eq_true,
          Bool.and_eq_true, beq_iff_eq]
        rcases Nat.lt_or_eq_of_le dated with before | same
        · exact .inl (decide_eq_true before)
        · exact .inr ⟨same, decide_eq_true below⟩
      | some row => exact rowLess_eq ..
    have texts : ∀ job ∈ (newest byCreation ((jobsOf jobs.rows tenant).filter fun job =>
        bound.all fun last => decide (byCreation job < byCreation last))).take (limit + 1),
            jobCursor job ≠ "" := by
      intro job member
      have listed : job ∈ jobs.rows :=
        among (List.mem_filter.mp ((newest_perm byCreation _).mem_iff.mp (List.mem_of_mem_take member))).1
      exact jobCursor_ne (jobs.early clock listed) (jobs.small listed)
    rw [← cutItems_page positive texts, ← found]
    simp only [adminList, list, start, bind, Except.bind]
    rfl

end

end OpenEmarsys.Keyset
