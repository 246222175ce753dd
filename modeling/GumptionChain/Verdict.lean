import GumptionChain.Reachable

/-!
# Verdicts

What a node decides about a block does not depend on what else it has stored.

* `Chain.targetAfter_congr`, `Chain.validateAbove_congr` — validation above
  ancestors that read back the same gives the same result, error included;
* `Chain.verdict_eq_of_ancestors` — so two nodes with the same ancestors of a
  block agree on it, whatever forks, chain rows, table and mempool each has.
-/

namespace GumptionChain

open Database

/-- Reading back the same is symmetric. -/
theorem Block.Same.symm {c b : Block} (h : c.Same b) : b.Same c :=
  ⟨h.idx.symm, h.blockHash.symm, h.prevHash.symm, h.target.symm, h.timestamp.symm, h.txns.symm⟩

theorem Block.Same.refl (b : Block) : b.Same b := ⟨rfl, rfl, rfl, rfl, rfl, List.Perm.refl _⟩

/-- A node without the left branch of the fork. -/
def Sample.rightState : Session := Node.processAll env none {} ([genesis, right].map call)

theorem Sample.reachable_right : Reachable env texts none rightState :=
  ReachableBy.empty.processAll (hashed (by simp [blocks]))

/-- Its tables. -/
def Sample.rightDb : Database where
  blocks := [blockRow 1 none (minutesPast 0) genesis,
    blockRow 2 (some 1) (minutesPast 20) right]
  transactions := [txnRow 1 (minutesPast 0) mint,
    txnRow 2 (minutesPast 20) rightCoinbase]
  outflows := [outflowRow 1 1 0 mint, outflowRow 2 2 0 rightCoinbase]
  blockTransactions := [(1, 1), (2, 2)]
  chains := [⟨1, right.blockHash.getD [], 2, 1⟩]
  longestChainBlocks := [⟨1, 0⟩, ⟨2, 1⟩]

theorem Sample.rightState_db : rightState.db = rightDb := by decide +kernel

/-- Both nodes have the same blocks below `top`. -/
theorem Sample.ancestors_top :
    List.Forall₂ Block.Same (state.db.ancestors top) (rightState.db.ancestors top) := by
  have h : stateDb.ancestors top = [right, genesis] := by decide +kernel
  have h' : rightDb.ancestors top = [right, genesis] := by decide +kernel
  rw [state_db, rightState_db, h, h']
  exact List.forall₂_same.2 fun b _ => Block.Same.refl b

namespace Chain

variable {E : Env} {b : Block} {cs bs : List Block}

/-- The target depends on what reads back the same. -/
theorem targetAfter_congr (h : List.Forall₂ Block.Same cs bs) :
    targetAfter E cs = targetAfter E bs := by
  cases h with
  | nil => rfl
  | @cons c q cs bs hc hrest =>
    have hcons : List.Forall₂ Block.Same (c :: cs) (q :: bs) := List.Forall₂.cons hc hrest
    unfold targetAfter
    simp only [hc.idx, hc.target]
    by_cases h23 : 23 < (c :: cs).length
    · have h23' : 23 < (q :: bs).length := hcons.length_eq ▸ h23
      have hstart : ((c :: cs)[23]).Same ((q :: bs)[23]) := hcons.get h23 h23'
      rw [List.getElem?_eq_getElem h23, List.getElem?_eq_getElem h23']
      simp only [scaledTarget, hc.timestamp, hc.target, hstart.timestamp]
    · rw [List.getElem?_eq_none (not_lt.1 h23),
        List.getElem?_eq_none (hcons.length_eq ▸ not_lt.1 h23)]

/-- So does the whole of validation, given ledgers that agree. -/
theorem validateAbove_congr {now : DateTime} {genesis : Except Err Unit} {L M : Ledger}
    (hL : L.Agrees M) (h : List.Forall₂ Block.Same cs bs) :
    validateAbove E now genesis L cs b = validateAbove E now genesis M bs b := by
  have hlink : validateLink E cs.head? b = validateLink E bs.head? b := by
    rcases Block.Same.head h with ⟨hc, hq⟩ | ⟨c, q, hc, hq, hcq⟩
    · rw [hc, hq]
    · rw [hc, hq, hcq.validateLink]
  unfold validateAbove
  rw [hlink, targetAfter_congr h, hL.validateBlockTxns_eq]

/-- The check for another genesis concerns genesis blocks only. -/
theorem validateGenesis_of_not {db : Database} (h : isGenesisBlock E b = false) :
    validateGenesis E db b = .ok () := by
  rw [validateGenesis, if_neg]
  rw [h]
  exact fun hc => Bool.false_ne_true hc.1

/-- **Validation depends only on ancestry.**  Two reachable states that have the
same ancestors of a block which is no genesis and which neither has stored give the
same verdict on it at the same clock, on the handles that `Node.add_block` chooses. -/
theorem verdict_eq_of_ancestors {S : Set Str} {depth depth' : Option ℕ} {s s' : Session}
    (hS : E.CollisionFree (insert genesisText S)) (h : Reachable E S depth s)
    (h' : Reachable E S depth' s') (hgen : isGenesisBlock E b = false)
    (hnew : s.db.blockByHash b.blockHash = none) (hnew' : s'.db.blockByHash b.blockHash = none)
    (hanc : List.Forall₂ Block.Same (s.db.ancestors b) (s'.db.ancestors b)) (now : DateTime) :
    ((Node.chainFor s.db b).validateBlock E now b s).map (fun _ => ()) =
      ((Node.chainFor s'.db b).validateBlock E now b s').map fun _ => () := by
  have hinv := h.inv hS
  have hinv' := h'.inv hS
  have hledger := hinv.ledger
  have hledger' := hinv'.ledger
  rw [validateBlock_eq hledger.schema (hinv.tree hS) hledger.linked hinv.chains,
    validateBlock_eq hledger'.schema (hinv'.tree hS) hledger'.linked hinv'.chains,
    validateGenesis_of_not hgen, validateGenesis_of_not hgen,
    Ledger.ofDb_unsaved hledger.schema (hinv.tree hS) hnew,
    Ledger.ofDb_unsaved hledger'.schema (hinv'.tree hS) hnew']
  have hids : ((txnsOf (s.db.ancestors b)).map Transaction.txid).Nodup := by
    obtain ⟨bs, hbs, hsame⟩ := hledger.ancestors b
    exact ((hbs.sound hS).of_core (Block.Same.txnsOf hsame).symm).txids
  rw [validateAbove_congr (Ledger.above_agrees (Block.Same.txnsOf hanc) hids) hanc]
  cases validateAbove E now (.ok ()) (Ledger.above b.txns (s'.db.ancestors b)) (s'.db.ancestors b) b
  all_goals rfl

/-- Two nodes, of which only one has the left branch, on a block for the right one. -/
theorem verdict_eq_of_ancestors_fork :
    ((Node.chainFor Sample.state.db Sample.top).validateBlock Sample.env Sample.day Sample.top
        Sample.state).map (fun _ => ()) =
      ((Node.chainFor Sample.rightState.db Sample.top).validateBlock Sample.env Sample.day
        Sample.top Sample.rightState).map fun _ => () :=
  verdict_eq_of_ancestors Sample.collisionFree Sample.reachable Sample.reachable_right
    (by decide +kernel) (by rw [Sample.state_db]; decide +kernel)
    (by rw [Sample.rightState_db]; decide +kernel) Sample.ancestors_top Sample.day

end Chain

end GumptionChain
