import GumptionChain.Env

/-!
# Exceptions

The exceptions the modelled code raises, as one type, and the kinds of handler
that tell them apart: `except InvalidTransactionError` while a block is validated
(`isTransactionError`), `except InvalidBlockError` while a chain is
(`isBlockError`), and `except SQLAlchemyError` while a block is stored
(`isSqlError`).

Validators are written as a sequence of `ensure`s; `ensure_eq_ok` and
`bind_eq_ok` turn an accepting run into the conjunction of what was checked.
-/

namespace GumptionChain

/-- The exceptions of `exceptions.py`, of the database layer and of Python that
the modelled code raises. -/
inductive Err where
  | invalidTransaction (details : List ErrorDetail)
  | duplicateMinedTransaction
  | invalidTransactionId
  | invalidSignature
  | futureTransaction
  | expiredTransaction
  | outOfOrderTransaction
  | unsealedTransaction
  | missingSigningKey
  | imbalancedTransaction
  | missingInflowOutflow
  | invalidInflowOutflow
  | inflowOutflowAddressMismatch
  | spentTransaction
  | invalidCoinbase
  | invalidCoinbaseReward
  | mismatchedCoinbase
  | invalidBlock (details : List ErrorDetail)
  /-- `InvalidBlockError({f'Transaction {txid}': e.messages})`. -/
  | transactionInBlock (txid : Option Str) (e : Err)
  /-- `InvalidBlockError(e.messages)`. -/
  | coinbaseInBlock (e : Err)
  | duplicateGenesis
  | invalidBlockHash
  | invalidPreviousHash
  | invalidMerkleRoot
  | missingCoinbase
  | sealedBlock
  | unlinkedBlock
  | futureBlock
  | invalidProof
  | outOfOrderBlock
  | invalidBlockIndex
  | invalidTarget
  | missingBlock
  | invalidChain
  /-- `InvalidChainError({f'Block #{idx}': e.messages})`. -/
  | blockInChain (idx : Option ℕ) (e : Err)
  | emptyChain
  | missingPreviousBlock
  | mempoolFull
  /-- `sqlalchemy.exc.MultipleResultsFound`. -/
  | multipleResultsFound
  /-- `sqlalchemy.exc.IntegrityError`: a UNIQUE or NOT NULL constraint. -/
  | integrityError
  /-- A value outside the range of its column. -/
  | dataError
  | attributeError
  | overflowError
  | valueError
  deriving DecidableEq

namespace Err

/-- The subclasses of `InvalidTransactionError`. -/
def isTransactionError : Err → Bool
  | invalidTransaction _ | duplicateMinedTransaction | invalidTransactionId | invalidSignature
  | futureTransaction | expiredTransaction | outOfOrderTransaction | unsealedTransaction
  | missingSigningKey | imbalancedTransaction | missingInflowOutflow | invalidInflowOutflow
  | inflowOutflowAddressMismatch | spentTransaction | invalidCoinbase | invalidCoinbaseReward
  | mismatchedCoinbase => true
  | _ => false

/-- The subclasses of `InvalidBlockError`. -/
def isBlockError : Err → Bool
  | invalidBlock _ | transactionInBlock .. | coinbaseInBlock _ | duplicateGenesis | invalidBlockHash
  | invalidPreviousHash | invalidMerkleRoot | missingCoinbase | sealedBlock | unlinkedBlock
  | futureBlock | invalidProof | outOfOrderBlock | invalidBlockIndex | invalidTarget
  | missingBlock => true
  | _ => false

/-- The subclasses of `SQLAlchemyError`. -/
def isSqlError : Err → Bool
  | multipleResultsFound | integrityError | dataError => true
  | _ => false

end Err

/-- `if not c: raise e`. -/
def ensure (c : Prop) [Decidable c] (e : Err) : Except Err Unit := if c then .ok () else .error e

@[simp] theorem ensure_eq_ok {c : Prop} [Decidable c] {e : Err} {u : Unit} :
    ensure c e = .ok u ↔ c := by
  unfold ensure
  split_ifs with h <;> simp [h]

theorem ensure_of {c : Prop} [Decidable c] {e : Err} (h : c) : ensure c e = .ok () := if_pos h

theorem ensure_congr {c d : Prop} [Decidable c] [Decidable d] {e : Err} (h : c ↔ d) :
    ensure c e = ensure d e := if_congr h rfl rfl

/-- What an accepting sequence of two computations did. -/
theorem bind_eq_ok {α β : Type} {x : Except Err α} {f : α → Except Err β} {b : β} :
    (x >>= f) = .ok b ↔ ∃ a, x = .ok a ∧ f a = .ok b := by
  cases x with
  | error e => exact ⟨fun h => absurd h (by simp [bind, Except.bind]), fun ⟨_, h, _⟩ => absurd h (by simp)⟩
  | ok a => exact ⟨fun h => ⟨a, rfl, h⟩, fun ⟨a', h, hf⟩ => by cases h; exact hf⟩

@[simp] theorem ok_bind {α β : Type} (a : α) (f : α → Except Err β) :
    ((Except.ok a : Except Err α) >>= f) = f a := rfl

@[simp] theorem error_bind {α β : Type} (e : Err) (f : α → Except Err β) :
    ((Except.error e : Except Err α) >>= f) = .error e := rfl

/-- Run an accepting check first. -/
theorem ensure_bind {β : Type} {c : Prop} [Decidable c] {e : Err} {f : Unit → Except Err β} {b : β} :
    (ensure c e >>= f) = .ok b ↔ c ∧ f () = .ok b := by
  rw [bind_eq_ok]
  exact ⟨fun ⟨_, h, hf⟩ => ⟨ensure_eq_ok.1 h, hf⟩, fun ⟨h, hf⟩ => ⟨(), ensure_of h, hf⟩⟩

/-- `session.execute(stmt).scalar_one_or_none()`. -/
def scalarOneOrNone {α : Type} : List α → Except Err (Option α)
  | [] => .ok none
  | [a] => .ok (some a)
  | _ => .error .multipleResultsFound

/-- A result with at most one row, given by what it holds. -/
theorem scalarOneOrNone_of_mem {α : Type} {l : List α} {o : Option α} (hn : l.Nodup)
    (h : ∀ x, x ∈ l ↔ o = some x) : scalarOneOrNone l = .ok o := by
  match l, hn, h with
  | [], _, h =>
    cases o with
    | none => rfl
    | some x => exact absurd ((h x).2 rfl) List.not_mem_nil
  | [a], _, h => rw [(h a).1 (List.mem_singleton_self a)]; rfl
  | a :: b :: rest, hn, h =>
    have ha := (h a).1 (List.mem_cons_self ..)
    have hb := (h b).1 (List.mem_cons_of_mem _ (List.mem_cons_self ..))
    rw [ha, Option.some.injEq] at hb
    exact absurd hn (by simp [hb])

/-- The handler `except InvalidTransactionError as e: raise wrap(e)`. -/
def wrapTransactionError (wrap : Err → Err) : Except Err Unit → Except Err Unit
  | .ok u => .ok u
  | .error e => .error (if e.isTransactionError then wrap e else e)

@[simp] theorem wrapTransactionError_eq_ok {wrap : Err → Err} {x : Except Err Unit} {u : Unit} :
    wrapTransactionError wrap x = .ok u ↔ x = .ok u := by
  cases x <;> simp [wrapTransactionError]

end GumptionChain
