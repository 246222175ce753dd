import GumptionChain.Reachable

/-!
# Runs of a node

The states that `Node.add_block` leads to from empty tables, and an induction
over what such a run does to the block tables.

* `Session.Inv.tryAddBlock_spec` — what a successful addition did;
* `NodeRun` — successful additions, with row objects dropped and the mempool
  changed in between; every one of these states is reachable (`NodeRun.reachable`);
* `NodeRun.ledger_induction` — a property of the block tables holds in every such
  state if storing an accepted block keeps it.
-/

namespace GumptionChain

open Database

/-! ## One addition -/

namespace Session

variable {E : Env} {S : Set Str} {depth : Option ℕ} {now : DateTime} {s s' s₁ : Session} {b : Block}

/-- Validation on `Node.add_block`'s handle judges the block by its ancestors and
leaves the session as it was. -/
theorem Inv.validates (hS : E.CollisionFree (insert genesisText S)) (h : s.Inv E S)
    (hval : (Node.chainFor s.db b).validateBlock E now b s = .ok s₁) :
    s₁ = s ∧ Chain.validateAbove E now (Chain.validateGenesis E s.db b) (Ledger.ofDb s.db b)
      (s.db.ancestors b) b = .ok () := by
  rw [Chain.validateBlock_eq h.ledger.schema (h.tree hS) h.ledger.linked h.chains] at hval
  cases habove : Chain.validateAbove E now (Chain.validateGenesis E s.db b) (Ledger.ofDb s.db b)
      (s.db.ancestors b) b with
  | error e => rw [habove] at hval; exact absurd hval (by simp [Except.map])
  | ok u =>
    rw [habove] at hval
    exact ⟨(Except.ok.inj hval).symm, rfl⟩

/-- **A successful addition**, step by step: the block is valid above its ancestors,
it is stored, the row of its tip is placed, and looked after once or twice. -/
theorem Inv.tryAddBlock_steps (hS : E.CollisionFree (insert genesisText S)) (h : s.Inv E S)
    (hb : b.Hashed S) (hadd : Node.tryAddBlock E depth now b s = .ok s') :
    ∃ db blk s₁ row n, Chain.validateAbove E now (Chain.validateGenesis E s.db b)
        (Ledger.ofDb s.db b) (s.db.ancestors b) b = .ok () ∧
      b.toDb E s.db = .ok db ∧ { s with db := db }.Inv E S ∧
      db.blockByHash b.blockHash = some blk ∧
      Placed ⟨(Node.chainFor s.db b).cid, b.blockHash⟩ blk { s with db := db } s₁ row ∧
      (n = 1 ∨ n = 2) ∧ s' = (syncLongestChainBlocks · depth row)^[n] s₁ := by
  obtain ⟨s₀, db, c', hval, hto, hsave⟩ := Node.tryAddBlock_eq_ok.1 hadd
  obtain ⟨hinv, blk, hblk⟩ := h.stored hS hb hval hto
  obtain ⟨rfl, habove⟩ := h.validates hS hval
  obtain ⟨s₁, row, n, hp, hn, heq⟩ := Session.toDb_spec
    (c := ⟨(Node.chainFor s₀.db b).cid, b.blockHash⟩) (s := { s₀ with db := db }) hblk depth
  rw [hsave, Except.ok.injEq, Prod.mk.injEq] at heq
  exact ⟨db, blk, s₁, row, n, habove, hto, hinv, hblk, hp, hn, heq.2⟩

/-- The same, as far as the tables are concerned. -/
theorem Inv.tryAddBlock_spec (hS : E.CollisionFree (insert genesisText S)) (h : s.Inv E S)
    (hb : b.Hashed S) (hadd : Node.tryAddBlock E depth now b s = .ok s') :
    ∃ db blk s₁ row, Chain.validateAbove E now (Chain.validateGenesis E s.db b)
        (Ledger.ofDb s.db b) (s.db.ancestors b) b = .ok () ∧
      b.toDb E s.db = .ok db ∧ { s with db := db }.Inv E S ∧
      db.blockByHash b.blockHash = some blk ∧
      Placed ⟨(Node.chainFor s.db b).cid, b.blockHash⟩ blk { s with db := db } s₁ row ∧
      Upkeep row blk s₁ s' := by
  obtain ⟨db, blk, s₁, row, n, habove, hto, hinv, hblk, hp, -, rfl⟩ :=
    h.tryAddBlock_steps hS hb hadd
  obtain ⟨hl, htable⟩ := hp.sameLedger
  obtain ⟨-, -, hrow⟩ := hp.chainRows hinv.ledger.schema hinv.chains hblk
  refine ⟨db, blk, s₁, row, habove, hto, hinv, hblk, hp, sync_iterate
    (hl.schema hinv.ledger.schema) (hl.tree (hinv.tree hS) (Or.inl htable))
    (hl.rootsAtZero hinv.ledger.linked.root) ?_ n⟩
  rw [hrow, hl.blockById, blockById_eq_some hinv.ledger.schema]
  exact ⟨(blockByHash_mem hblk).1, rfl⟩

end Session

/-! ## Runs -/

/-- The states that `Node.add_block` leads to from empty tables, over blocks that
satisfy `P` at the clock they are added at. -/
inductive NodeRun (E : Env) (P : DateTime → Block → Prop) (depth : Option ℕ) : Session → Prop
  | empty : NodeRun E P depth {}
  | add {s s' : Session} {now : DateTime} {commit : Bool} {b : Block} {r : Option Block} :
      NodeRun E P depth s → P now b → Node.addBlock E depth now commit b s = .ok (r, s') →
      NodeRun E P depth s'
  | forget {s : Session} {cache : ℕ → Option (ℕ × Bool)} : NodeRun E P depth s →
      (∀ i, cache i = none ∨ cache i = s.cache i) → NodeRun E P depth { s with cache := cache }
  | pool {s : Session} {pending : List PendingTxnDAO} : NodeRun E P depth s →
      NodeRun E P depth { s with db := { s.db with pendingTxns := pending } }

namespace NodeRun

variable {E : Env} {S : Set Str} {P : DateTime → Block → Prop} {depth : Option ℕ} {s : Session}

theorem reachable (h : NodeRun E P depth s) : ReachableBy E P depth s := by
  induction h with
  | empty => exact .empty
  | add _ hb hadd ih => exact ih.node hb hadd
  | forget _ hcache ih => exact ih.forget hcache
  | pool _ ih => exact ih.pool

theorem inv (hS : E.CollisionFree (insert genesisText S)) (hP : ∀ now b, P now b → b.Hashed S)
    (h : NodeRun E P depth s) : s.Inv E S := Reachable.inv hS (h.reachable.mono hP)

/-- Whatever is offered to a node, it stays in such a state. -/
theorem processAll {calls : List Node.Call} : ∀ {s : Session}, NodeRun E P depth s →
    (∀ call ∈ calls, P call.now call.block) →
    NodeRun E P depth (Node.processAll E depth s calls) := by
  induction calls with
  | nil => exact fun h _ => h
  | cons call rest ih =>
    intro s h hb
    rw [List.forall_mem_cons] at hb
    refine ih ?_ hb.2
    unfold Node.process
    split
    · rename_i r hr
      exact h.add hb.1 hr
    · exact h

/-- **Induction over the block tables.**  Besides the new rows of an accepted block
nothing happens to them in a run. -/
theorem ledger_induction (hS : E.CollisionFree (insert genesisText S))
    (hP : ∀ now b, P now b → b.Hashed S) {motive : Database → Prop} (empty : motive {})
    (congr : ∀ {db db' : Database}, db.SameLedger db' → motive db → motive db')
    (added : ∀ {s : Session} {now : DateTime} {b : Block} {db : Database} {row : BlockDAO}
      {ids : List ℕ}, s.Inv E S → P now b → s.db.blockByHash b.blockHash = none →
      Chain.validateAbove E now (Chain.validateGenesis E s.db b)
        (Ledger.above b.txns (s.db.ancestors b)) (s.db.ancestors b) b = .ok () →
      Block.Added E s.db db b row ids → motive s.db → motive db)
    (h : NodeRun E P depth s) : motive s.db := by
  induction h with
  | empty => exact empty
  | @add s s' now commit b r hrun hb hadd ih =>
    have hinv := hrun.inv hS hP
    rcases Node.addBlock_eq_ok hadd with ⟨-, htry⟩ | ⟨-, rfl⟩
    · obtain ⟨db, blk, s₁, row, habove, hto, -, -, hp, hup⟩ := hinv.tryAddBlock_spec hS (hP _ _ hb)
        htry
      refine congr (hp.sameLedger.1.trans hup.ledger) ?_
      rcases Block.toDb_spec hinv.ledger.schema hto with ⟨row, -, rfl⟩ | ⟨hnew, row, ids, ha⟩
      · exact ih
      · rw [Ledger.ofDb_unsaved hinv.ledger.schema (hinv.tree hS) hnew] at habove
        exact added hinv hb hnew habove ha ih
    · exact ih
  | forget _ _ ih => exact ih
  | pool _ ih => exact congr ⟨_, _, _, rfl⟩ ih

end NodeRun

end GumptionChain
