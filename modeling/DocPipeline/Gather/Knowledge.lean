import DocPipeline.Lib.Gather
import DocPipeline.Effects.Pipeline

/-!
# What the messages of text production know

A row keeps the path and the page count it was admitted with, so every message, every
run in progress and every row read earlier agrees with it on the number of shards. Under
`strict` they also agree that the total is on the row once a shard is on its way.
-/
namespace DocPipeline.Gather

set_option autoImplicit false

open Lib Lib.Gather PdfWorker

variable {site : Deployment} {db db' : Db} {d : DocId} {path : String} {n : Nat} {strict : Prop}

/-! ## Objects -/

/-- Opened as a PDF, the object has `n` pages. -/
def PdfPages (site : Deployment) (path : String) (n : Nat) : Prop :=
  ∃ blob, site.objects path = some blob ∧ (Pdf.readPageCount blob.data Pdf.pdfType).toOption = some n

theorem PdfPages.length {pages : List String} (h : PdfPages site path n)
    (hp : pagesText site path = some pages) : pages.length = n := by
  obtain ⟨blob, hblob, hn⟩ := h
  rw [pagesText, hblob, Option.bind_some] at hp
  simp only [Pdf.readPageCount, if_true] at hn
  cases hr : Pdf.reader blob.data with
  | error e =>
    rw [hr] at hp
    cases hp
  | ok texts =>
    rw [hr] at hp hn
    cases hp
    exact Option.some.inj hn

theorem PdfPages.split {total pageCount : Nat} (h : PdfPages site path n)
    (hs : splitCounts site path = some (total, pageCount)) : total = shardCount site n ∧ pageCount = n := by
  obtain ⟨blob, hblob, hn⟩ := h
  rw [splitCounts, hblob, Option.bind_some, hn, Option.map_some] at hs
  cases hs
  exact ⟨rfl, rfl⟩

theorem pdfPages_of_type {blob : Blob} (hblob : site.objects path = some blob)
    (hct : Triage.contentType blob = Pdf.pdfType) (hn : Triage.pageCount blob = some n) : PdfPages site path n := by
  rw [Triage.pageCount, hct] at hn
  exact ⟨blob, hblob, hn⟩

/-- An object of more pages than a shard takes is a PDF: any other type counts as one page. -/
theorem pdfPages_of_large {blob : Blob} (hblob : site.objects path = some blob)
    (hn : Triage.pageCount blob = some n) (hlarge : site.shardSizePages < n) : PdfPages site path n := by
  refine pdfPages_of_type hblob ?_ hn
  by_contra hct
  rw [Triage.pageCount, Pdf.readPageCount, if_neg hct] at hn
  have hone : n = 1 := (Option.some.inj hn).symm
  have hpos := site.shardSizePages_pos
  omega

theorem shardCount_pos (site : Deployment) (n : Nat) : 0 < shardCount site n := by
  unfold shardCount
  omega

theorem shardCount_small (h : n ≤ site.shardSizePages) : shardCount site n = 1 := by
  have hlt : n + site.shardSizePages - 1 < 2 * site.shardSizePages := by
    have hpos := site.shardSizePages_pos
    omega
  have hdiv : (n + site.shardSizePages - 1) / site.shardSizePages < 2 :=
    (Nat.div_lt_iff_lt_mul site.shardSizePages_pos).mpr hlt
  unfold shardCount
  omega

theorem large_of_shardCount (h : 1 < shardCount site n) : site.shardSizePages < n := by
  by_contra hle
  rw [shardCount_small (Nat.le_of_not_lt hle)] at h
  exact absurd h (Nat.lt_irrefl 1)

/-! ## Rows -/

/-- A row agrees with its object. -/
structure RowSound (site : Deployment) (row : Document) : Prop where
  counted : ∀ n, row.pageCount = some n →
    ∃ blob, site.objects row.gcsPath = some blob ∧ Triage.pageCount blob = some n
  textual : row.hasTextLayer = some true → ∃ n, row.pageCount = some n ∧ PdfPages site row.gcsPath n
  total : row.shardsTotal = 1 ∨ ∃ n, row.pageCount = some n ∧ row.shardsTotal = shardCount site n

theorem RowSound.total_of_pages {row : Document} (h : RowSound site row) (hn : row.pageCount = some n) :
    row.shardsTotal = 1 ∨ row.shardsTotal = shardCount site n := by
  rcases h.total with hone | ⟨k, hk, htotal⟩
  · exact Or.inl hone
  · rw [hn] at hk
    cases hk
    exact Or.inr htotal

theorem RowSound.small {row : Document} (h : RowSound site row) (hn : row.pageCount = some n)
    (hsmall : n ≤ site.shardSizePages) : row.shardsTotal = shardCount site n := by
  rcases h.total_of_pages hn with hone | htotal
  · rw [hone, shardCount_small hsmall]
  · exact htotal

/-- A row with more than one shard has the pages for them. -/
theorem RowSound.many {row : Document} (h : RowSound site row) (hmany : 1 < row.shardsTotal) :
    ∃ n, row.pageCount = some n ∧ row.shardsTotal = shardCount site n ∧ site.shardSizePages < n ∧
      PdfPages site row.gcsPath n := by
  rcases h.total with hone | ⟨n, hn, htotal⟩
  · omega
  · have hlarge := large_of_shardCount (htotal ▸ hmany)
    obtain ⟨blob, hblob, hcount⟩ := h.counted n hn
    exact ⟨n, hn, htotal, hlarge, pdfPages_of_large hblob hcount hlarge⟩

/-! ## Messages, runs and rows read earlier -/

/-- The document's row has this path and this page count. -/
def OfPages (db : Db) (d : DocId) (path : String) (n : Nat) : Prop :=
  ∃ row, db.documents.lookup d = some row ∧ row.gcsPath = path ∧ row.pageCount = some n

/-- The index is one of the document's shards. -/
def ShardOf (strict : Prop) (site : Deployment) (db : Db) (d : DocId) (idx : Nat) : Prop :=
  ∃ row n, db.documents.lookup d = some row ∧ row.pageCount = some n ∧ idx < shardCount site n ∧
    (strict → row.shardsTotal = shardCount site n)

def MsgSound (strict : Prop) (site : Deployment) (db : Db) : Topic → Payload → Prop
  | .textEmbedded, .dispatch d path _ => ∃ n, OfPages db d path n ∧ PdfPages site path n
  | .ocrSplit, .dispatch d path _ => ∃ n, OfPages db d path n ∧ PdfPages site path n ∧ site.shardSizePages < n
  | .ocrShard, .shard payload => ShardOf strict site db payload.docId payload.shardIdx
  | _, _ => True

/-- A row of the document read at some earlier time. -/
def Snapshot (strict : Prop) (site : Deployment) (db : Db) (d : DocId) (row : Document) : Prop :=
  RowSound site row ∧ ∃ current, db.documents.lookup d = some current ∧ current.gcsPath = row.gcsPath ∧
    current.pageCount = row.pageCount ∧ (strict → 1 < row.shardsTotal → current.shardsTotal = row.shardsTotal)

def TaskSound (strict : Prop) (site : Deployment) (db : Db) : Task → Prop
  | .textEmbedded d path _ => ∃ n, OfPages db d path n ∧ PdfPages site path n
  | .ocrSplit d path _ => ∃ n, OfPages db d path n ∧ PdfPages site path n ∧ site.shardSizePages < n
  | .ocrShard payload _ => ShardOf strict site db payload.docId payload.shardIdx
  | .sweep (.redriving claimed) => ∀ r, r ∈ claimed → Snapshot strict site db r.1 r.2
  | .forceRedrive d _ _ (.targeting row) => Snapshot strict site db d row
  | .forceRedrive d _ _ (.committing row target) =>
    Snapshot strict site db d row ∧ (target = .textPending → row.pageCount ≠ none)
  | _ => True

theorem taskSound_of_message {topic : Topic} {payload : Payload} {task : Task}
    (h : MsgSound strict site db topic payload) (ht : Task.ofMessage topic payload = some task) :
    TaskSound strict site db task := by
  unfold Task.ofMessage at ht
  split at ht <;> cases ht
  · trivial
  · exact h
  · exact h
  · exact h
  · trivial

theorem taskSound_start (job : Job) : TaskSound strict site db job.start := by
  cases job <;> trivial

/-! ## What survives -/

/-- Rows stay, with path and page count; and under `strict` so does the total of a split. -/
def Grows (strict : Prop) (site : Deployment) (db db' : Db) : Prop :=
  ∀ d row, db.documents.lookup d = some row → ∃ row', db'.documents.lookup d = some row' ∧
    row'.gcsPath = row.gcsPath ∧ row'.pageCount = row.pageCount ∧
    (strict → ∀ n, row.pageCount = some n → row.shardsTotal = shardCount site n →
      row'.shardsTotal = shardCount site n)

theorem Grows.refl (strict : Prop) (site : Deployment) (db : Db) : Grows strict site db db :=
  fun _ row hrow => ⟨row, hrow, rfl, rfl, fun _ _ _ ht => ht⟩

theorem Grows.trans {m : Db} (h : Grows strict site db m) (k : Grows strict site m db') :
    Grows strict site db db' := by
  intro d row hrow
  obtain ⟨row₁, hrow₁, hpath₁, hpages₁, htotal₁⟩ := h d row hrow
  obtain ⟨row₂, hrow₂, hpath₂, hpages₂, htotal₂⟩ := k d row₁ hrow₁
  exact ⟨row₂, hrow₂, hpath₂.trans hpath₁, hpages₂.trans hpages₁, fun hs n hn ht =>
    htotal₂ hs n (hpages₁.trans hn) (htotal₁ hs n hn ht)⟩

theorem Grows.of_documents (h : db'.documents = db.documents) : Grows strict site db db' := by
  intro d row hrow
  exact ⟨row, by rw [h, hrow], rfl, rfl, fun _ _ _ ht => ht⟩

theorem OfPages.mono (h : OfPages db d path n) (hg : Grows strict site db db') : OfPages db' d path n := by
  obtain ⟨row, hrow, hpath, hn⟩ := h
  obtain ⟨row', hrow', hpath', hpages', _⟩ := hg d row hrow
  exact ⟨row', hrow', hpath'.trans hpath, hpages'.trans hn⟩

theorem ShardOf.mono {idx : Nat} (h : ShardOf strict site db d idx) (hg : Grows strict site db db') :
    ShardOf strict site db' d idx := by
  obtain ⟨row, n, hrow, hn, hlt, htotal⟩ := h
  obtain ⟨row', hrow', _, hpages', htotal'⟩ := hg d row hrow
  exact ⟨row', n, hrow', hpages'.trans hn, hlt, fun hs => htotal' hs n hn (htotal hs)⟩

theorem MsgSound.mono {topic : Topic} {payload : Payload} (h : MsgSound strict site db topic payload)
    (hg : Grows strict site db db') : MsgSound strict site db' topic payload := by
  unfold MsgSound at h ⊢
  split at h
  · obtain ⟨n, hof, hpdf⟩ := h
    exact ⟨n, hof.mono hg, hpdf⟩
  · obtain ⟨n, hof, hpdf⟩ := h
    exact ⟨n, hof.mono hg, hpdf⟩
  · exact h.mono hg
  · trivial

theorem Snapshot.mono {row : Document} (h : Snapshot strict site db d row) (hg : Grows strict site db db') :
    Snapshot strict site db' d row := by
  obtain ⟨hsound, current, hcur, hpath, hpages, htotal⟩ := h
  obtain ⟨row', hrow', hpath', hpages', htotal'⟩ := hg d current hcur
  refine ⟨hsound, row', hrow', hpath'.trans hpath, hpages'.trans hpages, fun hs hmany => ?_⟩
  obtain ⟨n, hn, heq, _, _⟩ := hsound.many hmany
  rw [heq]
  exact htotal' hs n (hpages.trans hn) ((htotal hs hmany).trans heq)

theorem TaskSound.mono {task : Task} (h : TaskSound strict site db task) (hg : Grows strict site db db') :
    TaskSound strict site db' task := by
  unfold TaskSound at h ⊢
  split at h
  · obtain ⟨n, hof, hpdf⟩ := h
    exact ⟨n, hof.mono hg, hpdf⟩
  · obtain ⟨n, hof, hpdf⟩ := h
    exact ⟨n, hof.mono hg, hpdf⟩
  · exact h.mono hg
  · exact fun r hr => (h r hr).mono hg
  · exact h.mono hg
  · exact ⟨h.1.mono hg, h.2⟩
  · trivial

/-- The ledger of text production: rows agree with their objects, and the counter of a row
counts the shards claimed for it. -/
structure Ledgered (site : Deployment) (db : Db) : Prop where
  rows : ∀ d row, db.documents.lookup d = some row → RowSound site row
  text : ∀ d row, db.documents.lookup d = some row → row.state.isText = true → row.pageCount ≠ none
  nodup : db.documentShards.Nodup
  shards : ∀ d idx, (d, idx) ∈ db.documentShards → ShardOf False site db d idx
  done : ∀ d row, db.documents.lookup d = some row → row.shardsDone = (claimed db.documentShards d).length

theorem ledgered_initial (site : Deployment) : Ledgered site Sys.initial.db :=
  ⟨fun _ _ h => (nomatch h), fun _ _ h => (nomatch h), List.nodup_nil, fun _ _ h => (nomatch h),
    fun _ _ h => (nomatch h)⟩

theorem Ledgered.congr (h : Ledgered site db) (hd : db'.documents = db.documents)
    (hs : db'.documentShards = db.documentShards) : Ledgered site db' := by
  refine ⟨?_, ?_, ?_, fun d idx hm => (h.shards d idx (hs ▸ hm)).mono (Grows.of_documents hd), ?_⟩
  · rw [hd]
    exact h.rows
  · rw [hd]
    exact h.text
  · rw [hs]
    exact h.nodup
  · rw [hd, hs]
    exact h.done

/-- The claimed indices are below the shard count. -/
theorem Ledgered.claimed_lt {row : Document} (h : Ledgered site db) (hrow : db.documents.lookup d = some row)
    (hn : row.pageCount = some n) : ∀ i, i ∈ claimed db.documentShards d → i < shardCount site n := by
  intro i hi
  obtain ⟨row', k, hrow', hk, hlt, _⟩ := h.shards d i (mem_claimed.mp hi)
  rw [hrow] at hrow'
  cases hrow'
  rw [hn] at hk
  cases hk
  exact hlt

end DocPipeline.Gather
