import GumptionChain.Chain

/-!
# The node

`Node.add_block` and the runs made of it.

* `Node.tryAddBlock_eq_ok` — the steps of a successful addition: the handle
  chosen for the previous hash validates the block, its rows are stored, and the
  handle is saved with its new tip;
* `Node.addBlock_eq_ok` — an addition that returns either went through, or was
  swallowed and changed nothing;
* `Node.processAll` — a sequence of calls;
* `Session.forget` — row objects dropped because nothing refers to them any more;
* `Node.turns` — a sequence in which chain rows are asked, row objects are dropped and the
  mempool changes between the calls; `Node.addTurns` — one in which each call adds its
  block.
-/

namespace GumptionChain

namespace Session

/-- Row objects that nothing refers to any more are dropped, and with them their answers. -/
def forget (s : Session) (dropped : ℕ → Bool) : Session :=
  { s with cache := fun id => if dropped id then none else s.cache id }

@[simp] theorem forget_db (s : Session) (dropped : ℕ → Bool) : (s.forget dropped).db = s.db := rfl

theorem forget_cache (s : Session) (dropped : ℕ → Bool) (id : ℕ) :
    (s.forget dropped).cache id = none ∨ (s.forget dropped).cache id = s.cache id := by
  unfold forget
  cases h : dropped id with
  | true => exact Or.inl (if_pos h)
  | false => exact Or.inr (if_neg (by simp [h]))

end Session

/-- The turn of one of the blocks that a command works through: the clock that is read,
and the row objects dropped by then. -/
structure Moment where
  now : DateTime
  dropped : ℕ → Bool

namespace Node

/-- The handle `add_block` works on: the row whose tip is the previous block, or
a fresh handle (`create_chain`). -/
def chainFor (db : Database) (b : Block) : Chain :=
  (Chain.fromDb db b.prevHash).getD ⟨none, b.prevHash⟩

/-- The body of `add_block`'s `try`. -/
def tryAddBlock (E : Env) (depth : Option ℕ) (now : DateTime) (b : Block) (s : Session) :
    Except Err Session := do
  let (chain, s) ← (chainFor s.db b).addBlock E now b s
  let (_, s) ← chain.toDb depth s
  return s

/-- `add_block`.  A database error rolls the session back; it is swallowed when
the block is stored all the same, unless this is part of a batch. -/
def addBlock (E : Env) (depth : Option ℕ) (now : DateTime) (commit : Bool) (b : Block)
    (s : Session) : Except Err (Option Block × Session) :=
  match tryAddBlock E depth now b s with
  | .ok s' => .ok (some b, s')
  | .error e =>
    if e.isSqlError ∧ commit = true ∧ (s.db.blockByHash b.blockHash).isSome then .ok (none, s)
    else .error e

/-- A call of `add_block`: the clock it reads, whether it commits, and the block. -/
structure Call where
  now : DateTime
  commit : Bool
  block : Block

/-- A call as its caller sees it: one that raises leaves the session as it was. -/
def process (E : Env) (depth : Option ℕ) (s : Session) (call : Call) : Session :=
  match addBlock E depth call.now call.commit call.block s with
  | .ok r => r.2
  | .error _ => s

/-- A sequence of calls. -/
def processAll (E : Env) (depth : Option ℕ) (s : Session) (calls : List Call) : Session :=
  calls.foldl (process E depth) s

/-- What a session goes through: a call, a question to a chain row, row objects dropped
because nothing refers to them any more, and a change of the mempool. -/
inductive Turn
  | call (call : Call)
  | ask (id : ℕ)
  | forget (dropped : ℕ → Bool)
  | pool (pending : List PendingTxnDAO)

/-- The calls among them. -/
def calls (turns : List Turn) : List Call :=
  turns.filterMap fun
    | .call call => some call
    | _ => none

@[simp] theorem calls_call (call : Call) (rest : List Turn) :
    calls (.call call :: rest) = call :: calls rest := rfl

@[simp] theorem calls_ask (id : ℕ) (rest : List Turn) : calls (.ask id :: rest) = calls rest := rfl

@[simp] theorem calls_forget (dropped : ℕ → Bool) (rest : List Turn) :
    calls (.forget dropped :: rest) = calls rest := rfl

@[simp] theorem calls_pool (pending : List PendingTxnDAO) (rest : List Turn) :
    calls (.pool pending :: rest) = calls rest := rfl

/-- One of them. -/
def turn (E : Env) (depth : Option ℕ) (s : Session) : Turn → Session
  | .call call => process E depth s call
  | .ask id =>
    match s.db.chainDao none (some id) with
    | some row => (s.isLongest row).2
    | none => s
  | .forget dropped => s.forget dropped
  | .pool pending => { s with db := { s.db with pendingTxns := pending } }

/-- A sequence of them. -/
def turns (E : Env) (depth : Option ℕ) (s : Session) (ts : List Turn) : Session :=
  ts.foldl (turn E depth) s

theorem turns_append (E : Env) (depth : Option ℕ) (s : Session) (ts ts' : List Turn) :
    turns E depth s (ts ++ ts') = turns E depth (turns E depth s ts) ts' := List.foldl_append

/-- A sequence in which each call must add its block: nothing if one does not. -/
def addTurns (E : Env) (depth : Option ℕ) : Session → List Turn → Option Session
  | s, [] => some s
  | s, .call call :: rest =>
    match addBlock E depth call.now call.commit call.block s with
    | .ok (some _, s') => addTurns E depth s' rest
    | _ => none
  | s, t :: rest => addTurns E depth (turn E depth s t) rest

variable {E : Env} {depth : Option ℕ} {now : DateTime} {commit : Bool} {b : Block}
  {s s' : Session} {r : Option Block}

/-- The steps of a successful addition. -/
theorem tryAddBlock_eq_ok : tryAddBlock E depth now b s = .ok s' ↔
    ∃ s₁ db c', (chainFor s.db b).validateBlock E now b s = .ok s₁ ∧ b.toDb E s₁.db = .ok db ∧
      (⟨(chainFor s.db b).cid, b.blockHash⟩ : Chain).toDb depth { s₁ with db := db }
        = .ok (c', s') := by
  unfold tryAddBlock Chain.addBlock
  constructor
  · intro h
    obtain ⟨⟨c, s₂⟩, h₁, h⟩ := bind_eq_ok.1 h
    obtain ⟨s₁, hval, h₁⟩ := bind_eq_ok.1 h₁
    obtain ⟨db, hdb, h₁⟩ := bind_eq_ok.1 h₁
    cases h₁
    obtain ⟨⟨c', s₃⟩, hto, h⟩ := bind_eq_ok.1 h
    cases h
    exact ⟨s₁, db, c', hval, hdb, hto⟩
  · rintro ⟨s₁, db, c', hval, hdb, hto⟩
    rw [hval, ok_bind, hdb, ok_bind]
    show ((⟨(chainFor s.db b).cid, b.blockHash⟩ : Chain).toDb depth { s₁ with db := db } >>=
      fun r => Except.ok r.2) = _
    rw [hto, ok_bind]

/-- An addition that returns either went through, or left the session alone. -/
theorem addBlock_eq_ok (h : addBlock E depth now commit b s = .ok (r, s')) :
    (r = some b ∧ tryAddBlock E depth now b s = .ok s') ∨ (r = none ∧ s' = s) := by
  unfold addBlock at h
  split at h
  · rename_i s₁ htry
    cases h
    exact Or.inl ⟨rfl, htry⟩
  · split_ifs at h
    cases h
    exact Or.inr ⟨rfl, rfl⟩

end Node

end GumptionChain
