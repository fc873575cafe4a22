import DocPipeline.Audit.Pages
import DocPipeline.Audit.Artifact
import DocPipeline.Gather.Routing

/-!
# Whose text does an artifact hold?

A page travels from the uploaded object through a shard message, a shard's output, a run
that gathers and the artifact, and every hop can be repeated, late or half done. What OCR
reads off an image is all that comes from outside. As long as the objects of the inbox are
left alone, an artifact then holds pages of its own document only, in order and none twice,
and all of them from one source: the text layer or OCR.
-/
namespace DocPipeline.Audit

set_option autoImplicit false

open Lib Lib.Chunks Lib.Transaction Sys Gather PdfWorker

variable {site : Deployment} {engine : DocId → Nat → String} {s t : Sys} {a : Action} {db db' : Db} {d : DocId}
  {n : Nat} {payload : ShardPayload}

/-! ## Shard messages -/

/-- The message's page range is the shard's chunk of the pages its row counts. -/
def CutsRow (site : Deployment) (db : Db) (payload : ShardPayload) : Prop :=
  ∃ row n, db.documents.lookup payload.docId = some row ∧ row.pageCount = some n ∧ Cuts site payload.docId n payload

theorem CutsRow.mono (h : CutsRow site db payload) (hg : Grows False site db db') : CutsRow site db' payload := by
  obtain ⟨row, n, hrow, hn, hcuts⟩ := h
  obtain ⟨row', hrow', _, hpages', _⟩ := hg _ row hrow
  exact ⟨row', n, hrow', hpages'.trans hn, hcuts⟩

theorem CutsRow.of_cuts {row : Document} (hrow : db.documents.lookup d = some row) (hn : row.pageCount = some n)
    (h : Cuts site d n payload) : CutsRow site db payload := by
  obtain rfl := h.docId
  exact ⟨row, n, hrow, hn, h⟩

/-- A dispatch is a shard message only on the fast path, and then it is the whole document. -/
theorem cuts_of_route {topic : Topic} {total : Nat} {tl : Option Bool} {gcsPath : String}
    (hroute : Ledger.routeTextProduction site tl (some n) = .ok (topic, total))
    (hp : Payload.shard payload = Ledger.buildDispatchPayload topic d gcsPath (some n)) : Cuts site d n payload := by
  have htopic : topic = .ocrShard := by
    by_contra hne
    rw [Ledger.buildDispatchPayload, if_neg hne] at hp
    cases hp
  subst htopic
  exact cuts_of_dispatch (fastPath_of_route hroute).1 hp.symm

theorem cuts_of_redrives {row : Document} {state : DocState} {topic : Topic} (hs : Snapshot False site db d row)
    (hr : Sweeper.Redrives site d { row with state := state } topic (.shard payload)) : CutsRow site db payload := by
  obtain ⟨hsound, current, hcur, _, hpages, _⟩ := hs
  generalize hp : Payload.shard payload = p at hr
  cases hr with
  | @dispatch topic total _ _ hroute =>
    change Ledger.routeTextProduction site row.hasTextLayer row.pageCount = .ok (topic, total) at hroute
    change Payload.shard payload = Ledger.buildDispatchPayload topic d row.gcsPath row.pageCount at hp
    cases hn : row.pageCount with
    | some n =>
      rw [hn] at hroute hp
      exact .of_cuts hcur (hpages.trans hn) (cuts_of_route hroute hp)
    | none =>
      rw [hn] at hroute
      by_cases htl : row.hasTextLayer = some true
      · obtain ⟨k, hk, _⟩ := hsound.textual htl
        rw [hn] at hk
        cases hk
      · obtain ⟨_, k, hk, _⟩ := route_ocr htl hroute
        cases hk
  | @shard n idx _ hmany hn hlt =>
    obtain ⟨k, hk, htotal, _, _⟩ := hsound.many hmany
    cases hk.symm.trans hn
    cases hp
    exact .of_cuts hcur (hpages.trans hk) ⟨rfl, htotal ▸ hlt, rfl, rfl⟩
  | split | completed => cases hp

/-- Whoever sends a shard message cuts it right. -/
theorem cutsRow_send {start : Db} {task : Task} {topic : Topic} {docId : DocId}
    (ht : TaskSound False site db task) (hd : task.Does site start db (.send docId topic (.shard payload))) :
    CutsRow site db payload := by
  generalize hp : Payload.shard payload = p at hd
  cases task with
  | triage gcsPath =>
    cases hd with
    | dispatch _ _ hn hlookup hroute => exact .of_cuts hlookup hn (cuts_of_route hroute hp)
  | textEmbedded docId gcsPath pc =>
    obtain ⟨n, ⟨row, hrow, rfl, hn⟩, hpdf⟩ := ht
    obtain ⟨pages, hpages, _, hd⟩ := hd
    cases hd with
    | completed => cases hp
    | dispatch _ hroute =>
      rw [hpdf.length hpages] at hroute hp
      exact .of_cuts hrow hn (cuts_of_route hroute hp)
  | ocrSplit docId gcsPath pc =>
    obtain ⟨n, ⟨row, hrow, rfl, hn⟩, hpdf, _⟩ := ht
    cases hd with
    | shard hsplit hlt _ =>
      obtain ⟨rfl, rfl⟩ := hpdf.split hsplit
      cases hp
      exact .of_cuts hrow hn ⟨rfl, hlt, rfl, rfl⟩
  | sweep pc =>
    cases hd with
    | @redrive _ _ row _ _ _ hr =>
      subst hp
      have hsame : Sweeper.Redrives site docId { row with state := row.state } topic (.shard payload) := hr
      exact cuts_of_redrives (ht (docId, row) List.mem_cons_self) hsame
  | forceRedrive docId reason actor pc =>
    cases hd with
    | redrive hr =>
      subst hp
      exact cuts_of_redrives ht.1 hr
  | orphanScan | ocrShard =>
    cases hd
    cases hp
  | extraction | acceptReview | killSwitch => cases hd

/-! ## Pages of the document's own -/

/-- The texts of all pages of a document, from its text layer or as OCR reads them. -/
inductive Texts (site : Deployment) (engine : DocId → Nat → String) (d : DocId) (row : Document) : List String → Prop
  | layer {texts : List String} : pagesText site row.gcsPath = some texts → row.pageCount = some texts.length →
      Texts site engine d row texts
  | ocr {n : Nat} : row.pageCount = some n → Texts site engine d row ((List.range n).map (engine d))

theorem Texts.length {row : Document} {texts : List String} (h : Texts site engine d row texts) :
    row.pageCount = some texts.length := by
  cases h with
  | layer _ hn => exact hn
  | ocr hn => rw [List.length_map, List.length_range, hn]

theorem Texts.congr {row row' : Document} {texts : List String} (h : Texts site engine d row texts)
    (hpath : row'.gcsPath = row.gcsPath) (hpages : row'.pageCount = row.pageCount) : Texts site engine d row' texts := by
  cases h with
  | layer hpdf hn => exact .layer (hpath ▸ hpdf) (hpages.trans hn)
  | ocr hn => exact .ocr (hpages.trans hn)

/-- Page `i` under its number. -/
def numbered (texts : List String) : List Page := texts.mapIdx fun i text => ⟨i, text⟩

theorem pageNo_numbered (texts : List String) : (numbered texts).map Page.pageNo = List.range texts.length := by
  apply List.ext_getElem
  · simp [numbered]
  · intro i _ _
    simp [numbered]

theorem text_numbered (texts : List String) : (numbered texts).map Page.text = texts := by
  apply List.ext_getElem
  · simp [numbered]
  · intro i _ _
    simp [numbered]

theorem numbered_read (ocr : Nat → String) (n : Nat) : numbered ((List.range n).map ocr) = pagesRead ocr n := by
  apply List.ext_getElem
  · simp [numbered, pagesRead]
  · intro i _ _
    simp [numbered, pagesRead, readPage]

/-- Some pages of a text in order are in order. -/
theorem sorted_of_sublist {texts : List String} {pages : List Page} (h : pages.Sublist (numbered texts)) :
    Extraction.sortPages pages = pages := by
  refine List.Pairwise.insertionSort_eq (List.Pairwise.sublist h ?_)
  have hrange : ((numbered texts).map Page.pageNo).Pairwise (· ≤ ·) := by
    rw [pageNo_numbered]
    exact (List.pairwise_lt_range (n := texts.length)).imp fun h => Nat.le_of_lt h
  exact List.pairwise_map.mp hrange

/-- Some pages of a text that leave none of its numbers out are all of them. -/
theorem whole_of_sublist {texts : List String} {pages : List Page} (h : pages.Sublist (numbered texts))
    (hall : ∀ i, i < texts.length → i ∈ pages.map Page.pageNo) : pages = numbered texts := by
  have hnumbers : (pages.map Page.pageNo).Nodup :=
    ((pageNo_numbered texts ▸ List.nodup_range : ((numbered texts).map Page.pageNo).Nodup)).sublist (h.map _)
  have hle : texts.length ≤ pages.length := by
    have hrange : List.range texts.length ⊆ pages.map Page.pageNo := fun i hi => hall i (List.mem_range.mp hi)
    have hlen := (List.subperm_of_subset List.nodup_range hrange).length_le
    rwa [List.length_range, List.length_map] at hlen
  refine h.eq_of_length_le ?_
  rw [numbered, List.length_mapIdx]
  exact hle

def OwnText (site : Deployment) (engine : DocId → Nat → String) (db : Db) (d : DocId) (texts : List String) : Prop :=
  ∃ row, db.documents.lookup d = some row ∧ Texts site engine d row texts

/-- Some pages of the document, in order, all from one source. -/
def OwnPages (site : Deployment) (engine : DocId → Nat → String) (db : Db) (d : DocId) (pages : List Page) : Prop :=
  ∃ texts, OwnText site engine db d texts ∧ pages.Sublist (numbered texts)

/-- All of them. -/
def WholeText (site : Deployment) (engine : DocId → Nat → String) (db : Db) (d : DocId) (pages : List Page) : Prop :=
  ∃ texts, OwnText site engine db d texts ∧ pages = numbered texts

/-- Some pages of the shard's chunk, in order. -/
def OutputOf (site : Deployment) (engine : DocId → Nat → String) (db : Db) (d : DocId) (k : Nat) (pages : List Page) :
    Prop :=
  ∃ row n, db.documents.lookup d = some row ∧ row.pageCount = some n ∧
    pages.Sublist ((chunk site.shardSizePages n k).map (readPage (engine d)))

theorem OwnText.mono {texts : List String} (h : OwnText site engine db d texts) (hg : Grows False site db db') :
    OwnText site engine db' d texts := by
  obtain ⟨row, hrow, htexts⟩ := h
  obtain ⟨row', hrow', hpath, hpages, _⟩ := hg d row hrow
  exact ⟨row', hrow', htexts.congr hpath hpages⟩

theorem OwnPages.mono {pages : List Page} (h : OwnPages site engine db d pages) (hg : Grows False site db db') :
    OwnPages site engine db' d pages := by
  obtain ⟨texts, hown, hsub⟩ := h
  exact ⟨texts, hown.mono hg, hsub⟩

theorem WholeText.mono {pages : List Page} (h : WholeText site engine db d pages) (hg : Grows False site db db') :
    WholeText site engine db' d pages := by
  obtain ⟨texts, hown, heq⟩ := h
  exact ⟨texts, hown.mono hg, heq⟩

theorem OutputOf.mono {k : Nat} {pages : List Page} (h : OutputOf site engine db d k pages)
    (hg : Grows False site db db') : OutputOf site engine db' d k pages := by
  obtain ⟨row, n, hrow, hn, hsub⟩ := h
  obtain ⟨row', hrow', _, hpages, _⟩ := hg d row hrow
  exact ⟨row', n, hrow', hpages.trans hn, hsub⟩

/-! ## What a run carries -/

/-- A step that recognises a shard is given what OCR reads off the first of its images. -/
def readsOwn (engine : DocId → Nat → String) (s : Sys) : Action → Bool
  | .run tid input =>
    match s.tasks tid with
    | some (.ocrShard payload .recognising) => input.texts.isPrefixOf (imageTexts (engine payload.docId) payload)
    | _ => true
  | _ => true

/-- The pages an extraction run holds: some of the chunks it has been through, or the text it works on. -/
def Carries (site : Deployment) (engine : DocId → Nat → String) (db : Db) (d : DocId) : Extraction.Pc → Prop
  | .gathering doc idx pages => ∀ n, doc.pageCount = some n →
    pages.Sublist ((List.range (min (idx * site.shardSizePages) n)).map (readPage (engine d)))
  | .counting _ assembled | .extracting assembled _ | .checkingFlag assembled _ _ | .posting assembled _ _ =>
    WholeText site engine db d assembled.pages
  | _ => True

theorem Carries.mono {pc : Extraction.Pc} (h : Carries site engine db d pc) (hg : Grows False site db db') :
    Carries site engine db' d pc := by
  unfold Carries at h ⊢
  split at h
  · exact h
  · exact h.mono hg
  · exact h.mono hg
  · exact h.mono hg
  · exact h.mono hg
  · trivial

/-- Every page the bucket holds or a run has in hand is its document's own. -/
structure Rightful (site : Deployment) (engine : DocId → Nat → String) (s : Sys) : Prop where
  provided : Provided site s
  messages : ∀ m payload, m ∈ s.db.sent → m.payload = .shard payload → CutsRow site s.db payload
  shards : ∀ tid payload pc, s.tasks tid = some (.ocrShard payload pc) → CutsRow site s.db payload
  outputs : ∀ d k pages, s.world.bucket.shardOutput d k = some pages → OutputOf site engine s.db d k pages
  artifacts : ∀ d artifact, s.world.bucket.assembled d = some artifact → OwnPages site engine s.db d artifact.pages
  runs : ∀ tid d pc, s.tasks tid = some (.extraction d pc) → Carries site engine s.db d pc

theorem rightful_initial (site : Deployment) (engine : DocId → Nat → String) : Rightful site engine initial where
  provided := provided_initial site
  messages _ _ h := by cases h
  shards _ _ _ h := by cases h
  outputs _ _ _ h := by cases h
  artifacts _ _ h := by cases h
  runs _ _ _ h := by cases h

/-- The pages that pass the gate against the row a run has read are the whole text. -/
theorem whole_of_checkPages {doc : Document} {assembled : Artifact} {doc' : Document} {assembled' : Artifact}
    (hsnapshot : Snapshot False site db d doc) (hown : OwnPages site engine db d assembled.pages)
    (h : Extraction.checkPages doc assembled = .goto (.counting doc' assembled')) :
    WholeText site engine db d assembled'.pages := by
  rcases Extraction.checkPages_next doc assembled with ⟨_, hn⟩ | ⟨n, ⟨hcount, hpass, hn⟩ | ⟨_, hn⟩⟩
  · rw [hn] at h
    cases h
  · rw [hn] at h
    cases h
    obtain ⟨texts, ⟨row, hrow, htexts⟩, hsub⟩ := hown
    obtain ⟨_, current, hcurrent, _, hpages, _⟩ := hsnapshot
    obtain rfl : row = current := Option.some.inj (hrow.symm.trans hcurrent)
    obtain rfl : texts.length = n := Option.some.inj (htexts.length.symm.trans (hpages.trans hcount))
    exact ⟨texts, ⟨row, hrow, htexts⟩, whole_of_sublist hsub fun i hi => (completeness_pass hpass i).mpr hi⟩
  · rw [hn] at h
    cases h

/-- A run goes on with pages of its own document. -/
theorem carries_goes {verdict : Extraction.Verdict} {w w' : World} {pc pc' : Extraction.Pc}
    (hinformed : Informed site w.db (.extraction d pc))
    (houtputs : ∀ k pages, w.bucket.shardOutput d k = some pages → OutputOf site engine w.db d k pages)
    (hartifacts : ∀ artifact, w.bucket.assembled d = some artifact → OwnPages site engine w.db d artifact.pages)
    (h : Carries site engine w.db d pc) (hgoes : Extraction.Goes site d verdict w pc w' pc') :
    Carries site engine w.db d pc' := by
  have hchecked : ∀ {doc : Document} {assembled : Artifact}, Snapshot False site w.db d doc →
      w.bucket.assembled d = some assembled → Extraction.checkPages doc assembled = .goto pc' →
      Carries site engine w.db d pc' := by
    intro doc assembled hsnapshot hfound hcheck
    rcases Extraction.checkPages_goto hcheck with rfl | ⟨_, rfl⟩
    · exact whole_of_checkPages hsnapshot (hartifacts assembled hfound) hcheck
    · trivial
  cases hgoes with
  | found hfound hcheck | readBack hfound hcheck => exact hchecked hinformed hfound hcheck
  | absent => exact fun n _ => List.nil_sublist _
  | @gathered doc idx pages shard hlt hshard =>
    intro n hn
    obtain ⟨⟨_, current, hcurrent, _, hpages, _⟩, _⟩ := hinformed
    obtain ⟨row, k, hrow, hk, hsub⟩ := houtputs idx shard hshard
    obtain rfl : row = current := Option.some.inj (hrow.symm.trans hcurrent)
    obtain rfl : k = n := Option.some.inj (hk.symm.trans (hpages.trans hn))
    -- the chunks before this one, and this one
    have hjoin : (List.range (min ((idx + 1) * site.shardSizePages) k)).map (readPage (engine d)) =
        (List.range (min (idx * site.shardSizePages) k)).map (readPage (engine d)) ++
          (chunk site.shardSizePages k idx).map (readPage (engine d)) := by
      rw [← flatMap_chunk, ← flatMap_chunk, List.range_succ, List.flatMap_append, List.flatMap_singleton, List.map_append]
    rw [hjoin]
    exact (h k hn).append hsub
  | counted | accepted | enabled => exact h
  | opened | selected | stamped | missing | wrote | rejected | disabled | taken => trivial

/-- What a run that has gathered all shards writes is its document's own. -/
theorem own_of_gathered {w : World} {doc : Document} {idx : Nat} {pages : List Page} (hge : ¬ idx < doc.shardsTotal)
    (hinformed : Informed site w.db (.extraction d (.gathering doc idx pages)))
    (h : Carries site engine w.db d (.gathering doc idx pages)) :
    OwnPages site engine w.db d (Extraction.assembledFrom site pages).pages := by
  obtain ⟨⟨hsound, current, hcurrent, _, hpages, _⟩, hknown⟩ := hinformed
  have hpos : 0 < doc.shardsTotal := by
    rcases hsound.total with hone | ⟨n, _, htotal⟩
    · omega
    · have := shardCount_pos site n
      omega
  obtain ⟨n, hn⟩ := Option.ne_none_iff_exists'.mp (hknown (by omega))
  have hsub : pages.Sublist (numbered ((List.range n).map (engine d))) := by
    rw [numbered_read, pagesRead]
    refine (h n hn).trans (List.Sublist.map _ ?_)
    exact List.range_sublist.mpr (Nat.min_le_right _ _)
  refine ⟨_, ⟨current, hcurrent, .ocr (hpages.trans hn)⟩, ?_⟩
  rw [Extraction.assembledFrom, sorted_of_sublist hsub]
  exact hsub

/-! ## Steps -/

/-- The shard messages a step sends are cut right. -/
theorem cutsRow_taskStep {w : World} {input : Input} {task : Task} {r : World × Option Task}
    (hl : Ledgered site w.db) (ht : TaskSound False site w.db task) (h : task.step site w input = some r)
    {m : OutboxRow} (hm : m ∈ r.1.db.sent) (hp : m.payload = .shard payload) :
    m ∈ w.db.sent ∨ CutsRow site r.1.db payload := by
  have hrun : Ledgered site r.1.db ∧ Grows False site w.db r.1.db ∧ ∀ m payload, m ∈ r.1.db.sent →
      m.payload = .shard payload → m ∈ w.db.sent ∨ CutsRow site r.1.db payload := by
    refine (Task.step_performs h).invariant (P := fun db => Ledgered site db ∧ Grows False site w.db db ∧
      ∀ m payload, m ∈ db.sent → m.payload = .shard payload → m ∈ w.db.sent ∨ CutsRow site db payload)
      ⟨hl, Grows.refl False site w.db, fun _ _ hm _ => Or.inl hm⟩ fun db op db' hi hd hs => ?_
    obtain ⟨hldb, hgrown, hsent⟩ := hi
    obtain ⟨hl', hg'⟩ := ledgered_operation hldb (ht.mono hgrown) (fun hf => hf.elim) hd hs
    refine ⟨hl', hgrown.trans hg', fun m payload hm hp => ?_⟩
    have hold : m ∈ db.sent → m ∈ w.db.sent ∨ CutsRow site db' payload :=
      fun hm => (hsent m payload hm hp).imp id fun hc => hc.mono hg'
    cases hs with
    | send =>
      rcases List.mem_cons.mp hm with rfl | hm
      · cases hp
        exact Or.inr ((cutsRow_send (ht.mono hgrown) hd).mono hg')
      · exact hold hm
    | post | accept =>
      rcases List.mem_cons.mp hm with rfl | hm
      · cases hp
      · exact hold hm
    | insert | move | note | fallThrough | split | recordShard | route | settle | rekey => exact hold hm
    | aside hsame => exact hold (hsame.sent ▸ hm)
  exact hrun.2.2 m payload hm hp

/-- What a shard's worker writes. -/
theorem outputOf_recognised {texts : List String} (h : CutsRow site db payload)
    (hread : texts.isPrefixOf (imageTexts (engine payload.docId) payload) = true) :
    OutputOf site engine db payload.docId payload.shardIdx (OcrShard.pages payload.pageStart texts) := by
  obtain ⟨row, n, hrow, hn, hcuts⟩ := h
  obtain ⟨rest, hrest⟩ := List.isPrefixOf_iff_prefix.mp hread
  refine ⟨row, n, hrow, hn, List.IsPrefix.sublist ?_⟩
  rw [← pages_imageTexts (engine payload.docId) hcuts, ← hrest, OcrShard.pages, OcrShard.pages, List.mapIdx_append]
  exact List.prefix_append _ _

theorem shards_step (h : Rightful site engine s) (hgrows : Grows False site s.db t.db) (hs : Step site s a t) {tid : Nat}
    {pc : OcrShard.Pc} (htask : t.tasks tid = some (.ocrShard payload pc)) : CutsRow site t.db payload := by
  refine CutsRow.mono ?_ hgrows
  rcases task_of_step hs htask with hold | ⟨job, hjob⟩ | ⟨topic, partition, row, hrow, hmsg⟩ |
    ⟨input, before, r, rfl, hbefore, hr, hnext, _⟩
  · exact h.shards tid payload pc hold
  · cases job <;> cases hjob
  · unfold Task.ofMessage at hmsg
    split at hmsg <;> cases hmsg
    next hp => exact h.messages row payload (h.provided.sound.transport.delivers.stored _ _ row hrow).1 hp
  · cases before with
    | ocrShard payload' pc' =>
      cases hr
      obtain ⟨_, _, heq⟩ := Next.goto_of_task hnext
      cases heq
      exact h.shards tid payload pc' hbefore
    | triage | killSwitch =>
      cases hr
      cases hnext
    | orphanScan | extraction | sweep | forceRedrive | acceptReview =>
      cases hr
      obtain ⟨_, _, heq⟩ := Next.goto_of_task hnext
      cases heq
    | textEmbedded | ocrSplit =>
      obtain ⟨_, _, rfl⟩ := Option.map_eq_some_iff.mp hr
      obtain ⟨_, _, heq⟩ := Next.goto_of_task hnext
      cases heq

theorem rightful_step (h : Rightful site engine s) (hg : readsOwn engine s a = true) (hs : Step site s a t) :
    Rightful site engine t := by
  have hprovided := provided_step h.provided hs
  have hgrows := grows_step h.provided.sound hs
  refine ⟨hprovided, fun m payload hm hp => ?_, fun tid payload pc htask => shards_step h hgrows hs htask,
    fun d k pages hout => ?_, fun d artifact hart => ?_, fun tid d pc htask => ?_⟩
  · rcases unchanged_of_step hs with ⟨tid, input, rfl⟩ | ⟨_, _, hsent⟩
    · obtain ⟨task, r, htask, hr, rfl⟩ := runTask_eq hs
      rcases cutsRow_taskStep h.provided.sound.ledger (h.provided.sound.tasks tid task htask) hr hm hp with hold | hnew
      · exact (h.messages m payload hold hp).mono hgrows
      · exact hnew
    · exact (h.messages m payload (hsent ▸ hm) hp).mono hgrows
  · refine OutputOf.mono ?_ hgrows
    rcases bucket_of_step hs with ⟨tid, input, rfl⟩ | hsame
    · obtain ⟨task, r, htask, hr, rfl⟩ := runTask_eq hs
      change r.1.bucket.shardOutput d k = some pages at hout
      rcases Task.step_outputs hr with hsame | ⟨payload, rfl, hwrite⟩
      · exact h.outputs d k pages (hsame ▸ hout)
      · rw [hwrite, Bucket.writeShardOutput] at hout
        dsimp only at hout
        split at hout
        · next hkey =>
          obtain ⟨rfl, rfl⟩ := hkey
          cases hout
          refine outputOf_recognised (h.shards tid payload _ htask) ?_
          simpa only [readsOwn, htask] using hg
        · exact h.outputs d k pages hout
    · exact h.outputs d k pages (hsame ▸ hout)
  · refine OwnPages.mono ?_ hgrows
    rcases bucket_of_step hs with ⟨tid, input, rfl⟩ | hsame
    · obtain ⟨task, r, htask, hr, rfl⟩ := runTask_eq hs
      change r.1.bucket.assembled d = some artifact at hart
      rcases Task.step_assembled hr with hsame | ⟨d', artifact', hassembles, hwrite⟩
      · exact h.artifacts d artifact (hsame ▸ hart)
      · rw [hwrite, Bucket.writeAssembled] at hart
        dsimp only at hart
        split at hart
        · next hd =>
          cases hart
          subst hd
          cases hassembles with
          | @embedded _ gcsPath pages hpages =>
            obtain ⟨n, ⟨row, hrow, rfl, hn⟩, hpdf⟩ := h.provided.sound.tasks tid _ htask
            have hlength := hpdf.length hpages
            exact ⟨pages, ⟨row, hrow, .layer hpages (hlength ▸ hn)⟩, List.Sublist.refl _⟩
          | gathered hge => exact own_of_gathered hge (h.provided.informed tid _ htask) (h.runs tid d _ htask)
        · exact h.artifacts d artifact hart
    · exact h.artifacts d artifact (hsame ▸ hart)
  · refine Carries.mono ?_ hgrows
    rcases extraction_of_step hs htask with hold | rfl | ⟨input, pc', rfl, hbefore, hgoto⟩
    · exact h.runs tid d pc hold
    · trivial
    · exact carries_goes (h.provided.informed tid _ hbefore) (h.outputs d) (h.artifacts d) (h.runs tid d pc' hbefore)
        (Extraction.step_goes hgoto)

theorem rightful_run {as : List Action}
    (h : GuardedRun site (fun s a => readsOwn engine s a = true) initial as s) : Rightful site engine s :=
  h.invariant (rightful_initial site engine) fun _ _ _ hi hg hs => rightful_step hi hg hs

/-! ## Runs -/

/-- The artifact a run works on once it is past the completeness gate. -/
def inHand : Extraction.Pc → Option Artifact
  | .counting _ assembled | .extracting assembled _ | .checkingFlag assembled _ _ | .posting assembled _ _ =>
    some assembled
  | _ => none

theorem Carries.inHand {pc : Extraction.Pc} {artifact : Artifact} (h : Carries site engine db d pc)
    (hpc : inHand pc = some artifact) : WholeText site engine db d artifact.pages := by
  cases pc <;> cases hpc <;> exact h

/-- An artifact holds pages of its own document, in order, none twice and all from one source;
and what a run works on past the completeness gate is the whole of that source. -/
theorem artifact_pages_own {as : List Action}
    (h : GuardedRun site (fun s a => readsOwn engine s a = true) initial as s) (d : DocId) :
    (∀ artifact, s.world.bucket.assembled d = some artifact →
      ∃ row texts, s.document d = some row ∧ Texts site engine d row texts ∧
        artifact.pages.Sublist (numbered texts)) ∧
    ∀ tid pc artifact, s.tasks tid = some (.extraction d pc) → inHand pc = some artifact →
      ∃ row texts, s.document d = some row ∧ Texts site engine d row texts ∧
        row.pageCount = some texts.length ∧ artifact.pages = numbered texts := by
  have hrightful := rightful_run h
  constructor
  · intro artifact hart
    obtain ⟨texts, ⟨row, hrow, htexts⟩, hsub⟩ := hrightful.artifacts d artifact hart
    exact ⟨row, texts, hrow, htexts, hsub⟩
  · intro tid pc artifact htask hpc
    obtain ⟨texts, ⟨row, hrow, htexts⟩, heq⟩ := (hrightful.runs tid d pc htask).inHand hpc
    exact ⟨row, texts, hrow, htexts, htexts.length, heq⟩

/-- OCR on the scan of two pages. -/
def readsScan (_ : DocId) (page : Nat) : String := if page = 0 then "INV-1" else "x"

/-- A shard's worker that dies after one page leaves an artifact of that page. -/
theorem half_artifact_own :
    ∃ s artifact, GuardedRun twoPageShard (fun s a => readsOwn readsScan s a = true) initial (assembledFromOcr ["INV-1"]) s ∧
      s.world.bucket.assembled "crc32c-a" = some artifact ∧ ∃ row texts, s.document "crc32c-a" = some row ∧
        Texts twoPageShard readsScan "crc32c-a" row texts ∧ artifact.pages.Sublist (numbered texts) := by
  obtain ⟨s, hrun, hs⟩ := exists_guardedRun twoPageShard (readsOwn readsScan) (assembledFromOcr ["INV-1"])
    (assembledTwo fun artifact => decide (artifact.pages.length = 1)) (by decide +kernel)
  obtain ⟨_, artifact, _, _, hart, _⟩ := assembledTwo_inv hs
  exact ⟨s, artifact, hrun, hart, (artifact_pages_own hrun "crc32c-a").1 artifact hart⟩

end DocPipeline.Audit
