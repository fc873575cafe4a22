import Mathlib.Data.Finset.Card
import DocPipeline.Lib.Gather
import DocPipeline.Effects.TextProduction

/-!
# Does the join fire once?

Shard completions of one document, one transaction after the other: the parent's row lock
serialises them. The indices may come in any order and any number of times. The claimed
indices never repeat, so the counter is their number, and it meets the total at the call
that brings the last one.
-/
namespace DocPipeline.Audit

set_option autoImplicit false

open Lib Lib.Gather Lib.Transaction

/-- One transaction after those that gave the answers so far; one that raises changes
nothing and answers nothing. -/
def recordShard (d : DocId) (s : List (Option Bool) × Db) (i : Nat) : List (Option Bool) × Db :=
  match (Ledger.recordShardAndMaybeJoin d i (.completed d)).run s.2 with
  | .ok (won, db) => (s.1 ++ [some won], db)
  | .error _ => (s.1 ++ [none], s.2)

def recordShards (d : DocId) (db : Db) (idxs : List Nat) : List (Option Bool) × Db :=
  idxs.foldl (recordShard d) ([], db)

/-- Every index below `n` has been seen. -/
def Complete (n : Nat) (idxs : List Nat) : Prop := ∀ i, i < n → i ∈ idxs

instance (n : Nat) (idxs : List Nat) : Decidable (Complete n idxs) :=
  inferInstanceAs (Decidable (∀ i, i < n → i ∈ idxs))

variable {d : DocId} {db db' : Db} {row : Document} {idxs : List Nat} {i n : Nat}

theorem recordShards_snoc {won : Bool} {db'' : Db} (h : (recordShards d db idxs).2 = db')
    (hc : Commits (Ledger.recordShardAndMaybeJoin d i (.completed d)) db' won db'') :
    recordShards d db (idxs ++ [i]) = ((recordShards d db idxs).1 ++ [some won], db'') := by
  have hfold : recordShards d db (idxs ++ [i]) = recordShard d (recordShards d db idxs) i := by
    simp only [recordShards, List.foldl_append, List.foldl_cons, List.foldl_nil]
  rw [hfold, recordShard, h, show (Ledger.recordShardAndMaybeJoin d i (.completed d)).run db' = .ok (won, db'') from hc]

/-- The message of the winner, if there is one. -/
def announced (d : DocId) (db : Db) (fired : Bool) : List OutboxRow :=
  if fired then [⟨db.outboxSeq, d, .ocrCompleted, .completed d⟩] else []

/-- The database after completions with the indices `idxs`. -/
structure Gathered (d : DocId) (db : Db) (row : Document) (idxs : List Nat) (db' : Db) : Prop where
  mem : ∀ i, (d, i) ∈ db'.documentShards ↔ i ∈ idxs
  nodup : (claimed db'.documentShards d).Nodup
  count : ∃ row', db'.documents.lookup d = some row' ∧ row'.shardsTotal = row.shardsTotal ∧
    row'.shardsDone = (claimed db'.documentShards d).length ∧
    row'.state = if Complete row.shardsTotal idxs then .extractPending else .textRunning
  outbox : db'.outbox = db.outbox ++ announced d db (Complete row.shardsTotal idxs)
  outboxSeq : ¬ Complete row.shardsTotal idxs → db'.outboxSeq = db.outboxSeq

theorem mem_claimed_iff (h : Gathered d db row idxs db') : i ∈ claimed db'.documentShards d ↔ i ∈ idxs :=
  mem_claimed.trans (h.mem i)

theorem length_claimed (h : Gathered d db row idxs db') :
    (claimed db'.documentShards d).length = idxs.toFinset.card := by
  have hset : (claimed db'.documentShards d).toFinset = idxs.toFinset := by
    ext i
    rw [List.mem_toFinset, List.mem_toFinset, mem_claimed_iff h]
  rw [← hset, List.toFinset_card_of_nodup h.nodup]

theorem complete_snoc_of_mem (h : i ∈ idxs) : Complete n (idxs ++ [i]) ↔ Complete n idxs := by
  have hmem : ∀ j, j ∈ idxs ++ [i] ↔ j ∈ idxs := by
    intro j
    rw [List.mem_append, List.mem_singleton]
    exact ⟨fun hj => hj.elim id fun he => he ▸ h, Or.inl⟩
  exact forall_congr' fun j => imp_congr_right fun _ => hmem j

/-- A new index completes the set exactly when the counter meets the total. -/
theorem complete_snoc_iff (h : Gathered d db row idxs db') (hlt : ∀ j, j ∈ idxs ++ [i] → j < n) (hi : i ∉ idxs) :
    Complete n (idxs ++ [i]) ↔ (claimed db'.documentShards d).length + 1 = n := by
  have hnew : i ∉ claimed db'.documentShards d := fun hmem => hi ((mem_claimed_iff h).mp hmem)
  have hmem : ∀ j, j ∈ i :: claimed db'.documentShards d ↔ j ∈ idxs ++ [i] := by
    intro j
    rw [List.mem_cons, mem_claimed_iff h, List.mem_append, List.mem_singleton, or_comm]
  have hfull := full_iff (n := n) (List.nodup_cons.mpr ⟨hnew, h.nodup⟩) fun j hj => hlt j ((hmem j).mp hj)
  rw [List.length_cons] at hfull
  rw [← hfull]
  exact forall_congr' fun j => imp_congr_right fun _ => (hmem j).symm

/-- The answer of a call: it brought the last index. -/
def completes (n : Nat) (idxs : List Nat) (i : Nat) : Bool :=
  decide (Complete n (idxs ++ [i])) && !decide (Complete n idxs)

/-- One more completion commits, and answers whether it completes the set. -/
theorem gathered_snoc (h : Gathered d db row idxs db') (hlt : ∀ j, j ∈ idxs ++ [i] → j < row.shardsTotal) :
    ∃ db'', Commits (Ledger.recordShardAndMaybeJoin d i (.completed d)) db' (completes row.shardsTotal idxs i) db'' ∧
      Gathered d db row (idxs ++ [i]) db'' := by
  obtain ⟨row', hrow', htotal, hdone, hstate⟩ := h.count
  by_cases hi : i ∈ idxs
  · -- a duplicate: its index is taken
    have hsame := complete_snoc_of_mem (n := row.shardsTotal) hi
    have hanswer : completes row.shardsTotal idxs i = false := by
      simp only [completes, hsame, Bool.and_not_self]
    refine ⟨db', OcrShard.recordShardAndMaybeJoin_commits.mpr (Or.inl ⟨(h.mem i).mpr hi, hanswer, rfl⟩), ?_⟩
    refine ⟨fun j => ?_, h.nodup, ⟨row', hrow', htotal, hdone, ?_⟩, ?_, fun hc => h.outboxSeq fun hall => hc (hsame.mpr hall)⟩
    · rw [h.mem j, List.mem_append, List.mem_singleton]
      exact ⟨Or.inl, fun hj => hj.elim id fun he => he ▸ hi⟩
    · simp only [hsame, hstate]
    · simp only [hsame, h.outbox]
  · have hincomplete : ¬ Complete row.shardsTotal idxs :=
      fun hall => hi (hall i (hlt i (List.mem_append_right _ (List.mem_singleton.mpr rfl))))
    have hrunning : row'.state = .textRunning := by rw [hstate, if_neg hincomplete]
    have hfull := complete_snoc_iff h hlt hi
    have hnew : (d, i) ∉ db'.documentShards := fun hmem => hi ((h.mem i).mp hmem)
    have hmem : ∀ j, (d, j) ∈ (d, i) :: db'.documentShards ↔ j ∈ idxs ++ [i] := by
      intro j
      rw [List.mem_cons, h.mem j, Prod.mk.injEq, List.mem_append, List.mem_singleton, or_comm]
      simp only [true_and]
    have hnodup : (claimed ((d, i) :: db'.documentShards) d).Nodup := by
      rw [claimed_cons_self]
      exact List.nodup_cons.mpr ⟨fun hj => hi ((mem_claimed_iff h).mp hj), h.nodup⟩
    have hlength : row'.shardsDone + 1 = (claimed ((d, i) :: db'.documentShards) d).length := by
      rw [claimed_cons_self, List.length_cons, hdone]
    by_cases hlast : row'.shardsDone + 1 = row'.shardsTotal
    · -- the last index: the join fires
      have hcomplete : Complete row.shardsTotal (idxs ++ [i]) := hfull.mpr (by omega)
      have hanswer : completes row.shardsTotal idxs i = true := by
        simp only [completes, hcomplete, hincomplete, decide_true, decide_false, Bool.not_false, Bool.and_self]
      refine ⟨_, OcrShard.recordShardAndMaybeJoin_commits.mpr
        (Or.inr ⟨row', hrow', hnew, Or.inr ⟨hlast, hanswer, Or.inl hrunning, rfl⟩⟩), ?_⟩
      refine ⟨hmem, hnodup, ⟨row'.counted.moved .extractPending db'.now, ?_, htotal, hlength, ?_⟩, ?_,
        fun hc => absurd hcomplete hc⟩
      · exact Db.write_lookup_self _ d row'.counted _
      · rw [if_pos hcomplete]
        rfl
      · have hout : db'.outbox = db.outbox := by
          rw [h.outbox, announced, decide_eq_false hincomplete, if_neg Bool.false_ne_true, List.append_nil]
        rw [announced, decide_eq_true hcomplete, if_pos rfl, ← hout, ← h.outboxSeq hincomplete]
        rfl
    · -- a new index, and others are missing
      have hstill : ¬ Complete row.shardsTotal (idxs ++ [i]) := fun hall => hlast (by have := hfull.mp hall; omega)
      have hanswer : completes row.shardsTotal idxs i = false := by
        simp only [completes, hstill, decide_false, Bool.false_and]
      refine ⟨_, OcrShard.recordShardAndMaybeJoin_commits.mpr
        (Or.inr ⟨row', hrow', hnew, Or.inl ⟨hlast, hanswer, rfl⟩⟩), ?_⟩
      refine ⟨hmem, hnodup, ⟨row'.counted, Db.write_lookup_self .., htotal, hlength, ?_⟩, ?_,
        fun _ => h.outboxSeq hincomplete⟩
      · rw [if_neg hstill]
        exact hrunning
      · have hout := h.outbox
        rw [announced, decide_eq_false hincomplete] at hout
        rw [announced, decide_eq_false hstill]
        exact hout

/-- A document that has been split and not yet worked on. -/
structure Scattered (d : DocId) (db : Db) (row : Document) : Prop where
  found : db.documents.lookup d = some row
  running : row.state = .textRunning
  total : 1 ≤ row.shardsTotal
  done : row.shardsDone = 0
  unclaimed : ∀ i, (d, i) ∉ db.documentShards

theorem gathered_nil (h : Scattered d db row) : Gathered d db row [] db := by
  have hnone : claimed db.documentShards d = [] :=
    List.eq_nil_iff_forall_not_mem.mpr fun i hi => h.unclaimed i (mem_claimed.mp hi)
  have hincomplete : ¬ Complete row.shardsTotal [] := fun hall => List.not_mem_nil (hall 0 h.total)
  refine ⟨fun i => iff_of_false (h.unclaimed i) List.not_mem_nil, hnone ▸ List.nodup_nil,
    ⟨row, h.found, rfl, by rw [hnone, h.done, List.length_nil], ?_⟩, ?_, fun _ => rfl⟩
  · rw [if_neg hincomplete, h.running]
  · rw [announced, decide_eq_false hincomplete, if_neg Bool.false_ne_true, List.append_nil]

/-- Every sequence of completions commits throughout. -/
theorem gathered_run (h : Scattered d db row) (hlt : ∀ i, i ∈ idxs → i < row.shardsTotal) :
    Gathered d db row idxs (recordShards d db idxs).2 := by
  induction idxs using List.reverseRecOn with
  | nil => exact gathered_nil h
  | append_singleton idxs i ih =>
    obtain ⟨db'', hc, hnext⟩ := gathered_snoc (ih fun j hj => hlt j (List.mem_append_left _ hj)) hlt
    rw [recordShards_snoc rfl hc]
    exact hnext

theorem answers_snoc (h : Scattered d db row) (hlt : ∀ j, j ∈ idxs ++ [i] → j < row.shardsTotal) :
    (recordShards d db (idxs ++ [i])).1 = (recordShards d db idxs).1 ++ [some (completes row.shardsTotal idxs i)] := by
  obtain ⟨db'', hc, _⟩ := gathered_snoc (gathered_run h fun j hj => hlt j (List.mem_append_left _ hj)) hlt
  rw [recordShards_snoc rfl hc]

/-- The wins so far: one if the set is complete. -/
theorem count_wins (h : Scattered d db row) (hlt : ∀ i, i ∈ idxs → i < row.shardsTotal) :
    (recordShards d db idxs).1.count (some true) = if Complete row.shardsTotal idxs then 1 else 0 := by
  induction idxs using List.reverseRecOn with
  | nil =>
    rw [if_neg fun hall => List.not_mem_nil (hall 0 h.total)]
    rfl
  | append_singleton idxs i ih =>
    have hgrow : Complete row.shardsTotal idxs → Complete row.shardsTotal (idxs ++ [i]) :=
      fun hall j hj => List.mem_append_left _ (hall j hj)
    rw [answers_snoc h hlt, List.count_append, ih fun j hj => hlt j (List.mem_append_left _ hj), completes]
    by_cases hold : Complete row.shardsTotal idxs
    · simp [hold, hgrow hold]
    · by_cases hnew : Complete row.shardsTotal (idxs ++ [i]) <;> simp [hold, hnew]

/-- The join fires exactly once: after every prefix the counter is the number of distinct
indices, the call that completes the set wins, and with it the message and the state. -/
theorem join_fires_exactly_once (h : Scattered d db row) (hlt : ∀ i, i ∈ idxs → i < row.shardsTotal) :
    (∀ seen, seen <+: idxs →
      (∃ row', (recordShards d db seen).2.documents.lookup d = some row' ∧ row'.shardsDone = seen.toFinset.card ∧
        row'.state = if Complete row.shardsTotal seen then .extractPending else .textRunning) ∧
      (recordShards d db seen).2.outbox = db.outbox ++ announced d db (Complete row.shardsTotal seen)) ∧
    (∀ seen i, seen ++ [i] <+: idxs → (recordShards d db (seen ++ [i])).1 =
      (recordShards d db seen).1 ++ [some (completes row.shardsTotal seen i)]) ∧
    (recordShards d db idxs).1.count (some true) = if Complete row.shardsTotal idxs then 1 else 0 := by
  refine ⟨?_, ?_, count_wins h hlt⟩
  · intro seen hseen
    have hgathered := gathered_run h fun i hi => hlt i (hseen.subset hi)
    obtain ⟨row', hrow', _, hdone, hstate⟩ := hgathered.count
    exact ⟨⟨row', hrow', hdone.trans (length_claimed hgathered), hstate⟩, hgathered.outbox⟩
  · intro seen i hseen
    exact answers_snoc h fun j hj => hlt j (hseen.subset hj)

/-- Three shards, one delivered twice before the last arrives. -/
theorem third_shard_wins :
    ∃ db row, Scattered "crc32c-a" db row ∧ row.shardsTotal = 3 ∧
      (recordShards "crc32c-a" db [2, 0, 2, 1, 0]).1.count (some true) = 1 := by
  let row : Document := { gcsPath := "a.pdf", state := .textRunning, shardsTotal := 3, pageCount := some 3 }
  let db : Db := { documents := (∅ : Table DocId Document).insert "crc32c-a" row }
  have hscattered : Scattered "crc32c-a" db row :=
    ⟨AList.lookup_insert _, rfl, by decide, rfl, fun _ => List.not_mem_nil⟩
  refine ⟨db, row, hscattered, rfl, ?_⟩
  have hlt : ∀ i, i ∈ [2, 0, 2, 1, 0] → i < row.shardsTotal := by decide
  rw [(join_fires_exactly_once hscattered hlt).2.2]
  decide

end DocPipeline.Audit
