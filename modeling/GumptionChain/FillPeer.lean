import GumptionChain.Run

/-!
# Filling a peer

`Node.fill_peer` posts a block's ancestors, newest first, until the peer takes one,
and then the blocks above it again, oldest first.  What it does next is decided by the
peer's answers, an arbitrary sequence.

* `Posting` — the posts it waits on, and what it still has to post;
* `Posting.weight` — a measure that every answer lowers, but for one: an odd answer,
  inside 2xx and no acceptance, to the eleventh post of a block;
* `FillPeer.bounded_iff` — so it returns within its bounds exactly when no peer
  answers so.
-/

namespace GumptionChain

open Database

/-- A peer's answer to a post. -/
inductive PeerAnswer where
  | status (code : ℕ)
  | transportError

/-- `r.status_code in [200, 201, 202]`. -/
def accepts (code : ℕ) : Bool := code = 200 || code = 201 || code = 202

/-- `raise_for_status` raises: on every status outside 2xx. -/
def raisesForStatus (code : ℕ) : Bool := ! (200 ≤ code && code ≤ 299)

/-- A status that is neither an acceptance nor raised upon. -/
def PeerAnswer.Odd : PeerAnswer → Prop
  | status code => accepts code = false ∧ raisesForStatus code = false
  | transportError => False

/-- Where `fill_peer` is: waiting on the post of an ancestor, with the blocks to post
again if it is accepted; waiting on the post of a block, with the delay before the next
one and the blocks to come; or done. -/
inductive Posting where
  | walk (blocks : List Block) (parent : Block)
  | replay (block : Block) (delay : ℕ) (rest : List Block)
  | returned

namespace FillPeer

variable (E : Env) (db : Database)

/-- The next turn of `for block in blocks`. -/
def startReplay : List Block → Posting
  | [] => .returned
  | block :: rest => .replay block 0 rest

/-- A turn of `while not accepted`, up to the post. -/
def walkTo (blocks : List Block) (block : Block) : Posting :=
  if isGenesisBlock E block ∨ block.prevHash = none then startReplay (block :: blocks)
  else
    match Block.fromDb db block.prevHash with
    | none => .returned
    | some parent => .walk (block :: blocks) parent

/-- `fill_peer`, up to its first post. -/
def start (client : Bool) (lastBlock : Block) : Posting :=
  if client then walkTo E db [] lastBlock else .returned

/-- What it does with an answer; an exception ends it. -/
def answered : Posting → PeerAnswer → Posting
  | .walk blocks parent, .status code =>
    if code ≠ 404 ∧ raisesForStatus code then .returned
    else if accepts code then startReplay blocks
    else walkTo E db blocks parent
  | .replay block delay rest, .status code =>
    if accepts code then startReplay rest
    else if code ≠ 404 ∧ raisesForStatus code then .returned
    else if 10 < delay + 1 ∧ raisesForStatus code then .returned
    else .replay block (delay + 1) rest
  | _, _ => .returned

/-- Where it is after a number of answers. -/
def stateAt (client : Bool) (lastBlock : Block) (answers : ℕ → PeerAnswer) : ℕ → Posting
  | 0 => start E db client lastBlock
  | n + 1 => answered E db (stateAt client lastBlock answers n) (answers n)

end FillPeer

namespace Posting

/-- It waits on the post of this ancestor. -/
def Walks (parent : Block) : Posting → Prop
  | walk _ p => p = parent
  | _ => False

/-- It waits on a post of this block. -/
def Replays (block : Block) : Posting → Prop
  | replay b _ _ => b = block
  | _ => False

end Posting

/-- **The bounds**: it returns, having posted each ancestor once at most on the walk back
and each block eleven times at most in the replay. -/
structure FillPeer.Bounded (E : Env) (db : Database) (client : Bool) (lastBlock : Block)
    (answers : ℕ → PeerAnswer) : Prop where
  returns : ∃ n, stateAt E db client lastBlock answers n = .returned
  ancestors : ∀ n parent, (stateAt E db client lastBlock answers n).Walks parent →
    parent ∈ db.ancestors lastBlock
  walked : ∀ parent,
    {n | (stateAt E db client lastBlock answers n).Walks parent}.encard ≤ 1
  replayed : ∀ block,
    {n | (stateAt E db client lastBlock answers n).Replays block}.encard ≤ 11

/-! ## Ancestors -/

namespace Database

variable {E : Env} {db : Database} {b p : Block}

/-- A block's ancestors are its previous block and the ancestors of that. -/
theorem ancestors_cons (hl : db.Linked E) (ht : db.Tree) (hp : Block.fromDb db b.prevHash = some p) :
    db.ancestors b = p :: db.ancestors p := by
  obtain ⟨r, hr, rfl⟩ := Option.map_eq_some_iff.1 hp
  have hmem := (blockByHash_mem hr).1
  have hprev : db.blockByHash (Block.fromDao db r).prevHash = db.prev r := hl.prev r hmem
  unfold ancestors
  rw [hr, hprev]
  simp only
  cases hp : db.prev r with
  | none => rw [pathBlocks, path, Forest.path_none hp]; rfl
  | some q => rw [pathBlocks, path, Forest.path_some ht.ranked hmem hp]; rfl

end Database

/-! ## What an answer does -/

namespace Posting

variable (db : Database)

/-- How many ancestors a block has. -/
abbrev height (b : Block) : ℕ := (db.ancestors b).length

/-- A measure of what is still to be posted. -/
def weight : Posting → ℕ
  | walk blocks parent => 11 * (blocks.length + height db parent + 1) + height db parent + 1
  | replay _ delay rest => 11 * rest.length + (11 - delay)
  | returned => 0

/-- How far it has come: down the ancestors, and up again, eleven posts a block. -/
def progress : Posting → ℤ
  | walk _ parent => - height db parent - 1
  | replay block delay _ => 11 * height db block + delay
  | returned => 0

/-- The blocks to post again are in order, with the ancestor waited on below them, and no
block was posted more than eleven times. -/
def Sound : Posting → Prop
  | walk blocks parent => blocks.Pairwise (fun x y => height db x < height db y) ∧
      ∀ x ∈ blocks, height db parent < height db x
  | replay block delay rest =>
    (block :: rest).Pairwise (fun x y => height db x < height db y) ∧ delay ≤ 10
  | returned => True

/-- The ancestor waited on is one of the first block's. -/
def Above (lastBlock : Block) : Posting → Prop
  | walk _ parent => (parent :: db.ancestors parent) <:+ db.ancestors lastBlock
  | _ => True

end Posting

namespace FillPeer

open Posting

variable {E : Env} {db : Database} {p : Posting} {a : PeerAnswer} {block lastBlock : Block}
  {blocks : List Block}

theorem startReplay_spec (lastBlock : Block)
    (h : blocks.Pairwise fun x y => height db x < height db y) :
    (startReplay blocks).Sound db ∧ (startReplay blocks).weight db ≤ 11 * blocks.length ∧
      (startReplay blocks).Above db lastBlock := by
  cases blocks with
  | nil => exact ⟨trivial, le_rfl, trivial⟩
  | cons b rest => exact ⟨⟨h, Nat.zero_le _⟩, le_rfl, trivial⟩

theorem walkTo_spec (hl : db.Linked E) (ht : db.Tree)
    (h : blocks.Pairwise fun x y => height db x < height db y)
    (hb : ∀ x ∈ blocks, height db block < height db x)
    (hsuf : db.ancestors block <:+ db.ancestors lastBlock) :
    (walkTo E db blocks block).Sound db ∧
      (walkTo E db blocks block).weight db ≤
        11 * (blocks.length + height db block + 1) + height db block ∧
      (walkTo E db blocks block).Above db lastBlock := by
  have hpair : (block :: blocks).Pairwise fun x y => height db x < height db y :=
    List.pairwise_cons.2 ⟨hb, h⟩
  unfold walkTo
  split_ifs with hstop
  · obtain ⟨hs, hw, ha⟩ := startReplay_spec lastBlock hpair
    refine ⟨hs, hw.trans ?_, ha⟩
    rw [List.length_cons]
    omega
  · cases hp : Block.fromDb db block.prevHash with
    | none => exact ⟨trivial, Nat.zero_le _, trivial⟩
    | some parent =>
      have hcons := ancestors_cons hl ht hp
      have hheight : height db block = height db parent + 1 := by
        rw [height, hcons]
        rfl
      refine ⟨⟨hpair, fun x hx => ?_⟩, ?_, ?_⟩
      · rcases List.mem_cons.1 hx with rfl | hx
        · omega
        · have := hb x hx
          omega
      · simp only [weight, List.length_cons]
        omega
      · rw [hcons] at hsuf
        exact hsuf

/-- An odd answer to the eleventh post of a block. -/
def Stuck (p : Posting) (a : PeerAnswer) : Prop :=
  a.Odd ∧ ∃ block rest, p = .replay block 10 rest

/-- **Any other answer lowers the weight.** -/
theorem answered_spec (hl : db.Linked E) (ht : db.Tree) (hs : p.Sound db)
    (habove : p.Above db lastBlock) (hok : ¬ Stuck p a) :
    (answered E db p a).Sound db ∧ (answered E db p a).Above db lastBlock ∧
      (p ≠ .returned → (answered E db p a).weight db < p.weight db) := by
  cases a with
  | transportError =>
    cases p with
    | walk blocks parent => exact ⟨trivial, trivial, fun _ => Nat.succ_pos _⟩
    | replay block delay rest =>
      refine ⟨trivial, trivial, fun _ => ?_⟩
      have := hs.2
      simp only [answered, weight]
      omega
    | returned => exact ⟨trivial, trivial, fun h => absurd rfl h⟩
  | status code =>
    cases p with
    | walk blocks parent =>
      simp only [answered]
      split_ifs with hraise hacc
      · exact ⟨trivial, trivial, fun _ => Nat.succ_pos _⟩
      · obtain ⟨hs', hw, ha⟩ := startReplay_spec lastBlock hs.1
        refine ⟨hs', ha, fun _ => hw.trans_lt ?_⟩
        simp only [weight]
        omega
      · obtain ⟨hs', hw, ha⟩ := walkTo_spec hl ht hs.1 hs.2 ((List.suffix_cons ..).trans habove)
        exact ⟨hs', ha, fun _ => Nat.lt_succ_of_le hw⟩
    | replay block delay rest =>
      obtain ⟨hpair, hdelay⟩ := hs
      simp only [answered]
      split_ifs with hacc hraise hlast
      · obtain ⟨hs', hw, ha⟩ :=
          startReplay_spec lastBlock (List.pairwise_cons.1 hpair).2
        refine ⟨hs', ha, fun _ => hw.trans_lt ?_⟩
        simp only [weight]
        omega
      · refine ⟨trivial, trivial, fun _ => ?_⟩
        simp only [weight]
        omega
      · refine ⟨trivial, trivial, fun _ => ?_⟩
        simp only [weight]
        omega
      · -- another post: a status of 404 was not the eleventh, an odd one neither
        have hlt : delay < 10 := by
          by_contra hge
          obtain rfl : delay = 10 := by omega
          have hno : raisesForStatus code = false := by
            by_contra hr
            exact hlast ⟨by omega, by simpa using hr⟩
          exact hok ⟨⟨by simpa using hacc, hno⟩, block, rest, rfl⟩
        refine ⟨⟨hpair, hlt⟩, trivial, fun _ => ?_⟩
        simp only [weight]
        omega
    | returned => exact ⟨trivial, trivial, fun h => absurd rfl h⟩

theorem walkTo_progress (blocks : List Block) (block : Block) (hl : db.Linked E) (ht : db.Tree) :
    walkTo E db blocks block = .returned ∨
      - (height db block : ℤ) ≤ (walkTo E db blocks block).progress db := by
  unfold walkTo
  split_ifs with hstop
  · refine .inr ?_
    show - (height db block : ℤ) ≤ 11 * height db block + (0 : ℕ)
    omega
  · cases hp : Block.fromDb db block.prevHash with
    | none => exact .inl rfl
    | some parent =>
      refine .inr ?_
      have hheight : height db block = height db parent + 1 := by
        rw [height, ancestors_cons hl ht hp]
        rfl
      simp only [progress]
      omega

/-- **And is progress**, while it goes on. -/
theorem answered_progress (hl : db.Linked E) (ht : db.Tree) (hs : p.Sound db)
    (hgo : answered E db p a ≠ .returned) :
    p.progress db < (answered E db p a).progress db := by
  cases a with
  | transportError => exact absurd (by cases p <;> rfl) hgo
  | status code =>
    cases p with
    | returned => exact absurd rfl hgo
    | walk blocks parent =>
      simp only [answered] at hgo ⊢
      split_ifs at hgo ⊢
      · exact absurd rfl hgo
      · cases blocks with
        | nil => exact absurd rfl hgo
        | cons b rest =>
          simp only [startReplay, progress]
          omega
      · rcases walkTo_progress blocks parent hl ht with h | h
        · exact absurd h hgo
        · simp only [progress] at h ⊢
          omega
    | replay block delay rest =>
      obtain ⟨hpair, hdelay⟩ := hs
      simp only [answered] at hgo ⊢
      split_ifs at hgo ⊢
      · cases rest with
        | nil => exact absurd rfl hgo
        | cons b rest =>
          have := (List.pairwise_cons.1 hpair).1 b (List.mem_cons_self ..)
          simp only [startReplay, progress]
          omega
      · exact absurd rfl hgo
      · exact absurd rfl hgo
      · simp only [progress]
        omega

/-! ## Whole runs -/

variable {client : Bool} {answers : ℕ → PeerAnswer} {n m : ℕ}

/-- No answer of the run is odd and to the eleventh post of a block. -/
def NeverStuck (E : Env) (db : Database) (client : Bool) (lastBlock : Block)
    (answers : ℕ → PeerAnswer) : Prop :=
  ∀ n, ¬ Stuck (stateAt E db client lastBlock answers n) (answers n)

theorem start_spec (hl : db.Linked E) (ht : db.Tree) :
    (start E db client lastBlock).Sound db ∧ (start E db client lastBlock).Above db lastBlock := by
  unfold start
  split_ifs
  · obtain ⟨hs, -, ha⟩ := @walkTo_spec E db lastBlock lastBlock [] hl ht List.Pairwise.nil
      (fun x hx => absurd hx List.not_mem_nil) (List.suffix_refl _)
    exact ⟨hs, ha⟩
  · exact ⟨trivial, trivial⟩

/-- Every state of such a run is sound. -/
theorem stateAt_sound (hl : db.Linked E) (ht : db.Tree)
    (hok : NeverStuck E db client lastBlock answers) (n : ℕ) :
    (stateAt E db client lastBlock answers n).Sound db ∧
      (stateAt E db client lastBlock answers n).Above db lastBlock := by
  induction n with
  | zero => exact start_spec hl ht
  | succ n ih =>
    obtain ⟨hs, ha, -⟩ := answered_spec hl ht ih.1 ih.2 (hok n)
    exact ⟨hs, ha⟩

/-- It returns. -/
theorem returns_of_neverStuck (hl : db.Linked E) (ht : db.Tree)
    (hok : NeverStuck E db client lastBlock answers) :
    ∃ n, stateAt E db client lastBlock answers n = .returned := by
  by_contra hno
  push Not at hno
  have hfall : ∀ n, (stateAt E db client lastBlock answers n).weight db + n ≤
      (stateAt E db client lastBlock answers 0).weight db := by
    intro n
    induction n with
    | zero => exact le_rfl
    | succ n ih =>
      obtain ⟨hs, ha⟩ := stateAt_sound hl ht hok n
      have hlt := (answered_spec hl ht hs ha (hok n)).2.2 (hno n)
      simp only [stateAt] at ih ⊢
      omega
  have := hfall ((stateAt E db client lastBlock answers 0).weight db + 1)
  omega

/-- It makes progress from each post to the next. -/
theorem progress_lt (hl : db.Linked E) (ht : db.Tree)
    (hok : NeverStuck E db client lastBlock answers) (hnm : n < m)
    (hgo : stateAt E db client lastBlock answers m ≠ .returned) :
    (stateAt E db client lastBlock answers n).progress db <
      (stateAt E db client lastBlock answers m).progress db := by
  induction m with
  | zero => exact absurd hnm (Nat.not_lt_zero n)
  | succ m ih =>
    have hm : stateAt E db client lastBlock answers m ≠ .returned := by
      intro hret
      refine hgo ?_
      rw [stateAt, hret]
      rfl
    have hstep := answered_progress hl ht (stateAt_sound hl ht hok m).1 hgo
    rcases Nat.lt_succ_iff_lt_or_eq.1 hnm with hlt | rfl
    · exact (ih hlt hm).trans hstep
    · exact hstep

/-- Posts with progress in a range of numbers are no more than the numbers. -/
theorem encard_le_of_progress (hl : db.Linked E) (ht : db.Tree)
    (hok : NeverStuck E db client lastBlock answers) (q : Posting → Prop) (lo : ℤ) (count : ℕ)
    (hq : ∀ p, q p → p ≠ .returned)
    (hrange : ∀ n, q (stateAt E db client lastBlock answers n) →
      lo ≤ (stateAt E db client lastBlock answers n).progress db ∧
        (stateAt E db client lastBlock answers n).progress db < lo + count) :
    {n | q (stateAt E db client lastBlock answers n)}.encard ≤ count := by
  have hinj : Set.InjOn (fun n => (stateAt E db client lastBlock answers n).progress db)
      {n | q (stateAt E db client lastBlock answers n)} := by
    intro n hn m hm heq
    rcases lt_trichotomy n m with hlt | rfl | hlt
    · exact absurd heq (progress_lt hl ht hok hlt (hq _ hm)).ne
    · rfl
    · exact absurd heq (progress_lt hl ht hok hlt (hq _ hn)).ne'
  rw [← hinj.encard_image]
  refine (Set.encard_le_encard (show _ ⊆ (↑(Finset.Ico lo (lo + count)) : Set ℤ) from ?_)).trans ?_
  · rintro _ ⟨n, hn, rfl⟩
    exact Finset.mem_coe.2 (Finset.mem_Ico.2 (hrange n hn))
  · rw [Set.encard_coe_eq_coe_finsetCard, Int.card_Ico]
    simp

theorem startReplay_ne {delay : ℕ} {rest : List Block} :
    startReplay blocks ≠ .replay block (delay + 1) rest := by
  intro h
  cases blocks with
  | nil => cases h
  | cons b bs => cases h

theorem walkTo_ne {delay : ℕ} {rest : List Block} :
    walkTo E db blocks lastBlock ≠ .replay block (delay + 1) rest := by
  intro h
  unfold walkTo at h
  split_ifs at h
  · exact startReplay_ne h
  · split at h <;> cases h

/-- A post of a block that is not its first comes after another. -/
theorem replay_of_answered {delay : ℕ} {rest : List Block}
    (h : answered E db p a = .replay block (delay + 1) rest) : p = .replay block delay rest := by
  cases a with
  | transportError => cases p <;> cases h
  | status code =>
    cases p with
    | returned => cases h
    | walk blocks parent =>
      simp only [answered] at h
      split_ifs at h
      · exact absurd h startReplay_ne
      · exact absurd h walkTo_ne
    | replay b d r =>
      simp only [answered] at h
      split_ifs at h
      · exact absurd h startReplay_ne
      · cases h
        rfl

/-- The posts of a block before its latest. -/
theorem posts_before {delay : ℕ} {rest : List Block}
    (h : stateAt E db client lastBlock answers n = .replay block delay rest) :
    ∀ j ≤ delay, j ≤ n ∧
      stateAt E db client lastBlock answers (n - j) = .replay block (delay - j) rest := by
  intro j
  induction j with
  | zero => exact fun _ => ⟨Nat.zero_le _, h⟩
  | succ j ih =>
    intro hj
    obtain ⟨hjn, hstate⟩ := ih (by omega)
    obtain ⟨d, hd⟩ : ∃ d, delay - j = d + 1 := ⟨delay - j - 1, by omega⟩
    rw [hd] at hstate
    cases hk : n - j with
    | zero =>
      rw [hk, stateAt, start] at hstate
      split_ifs at hstate
      exact absurd hstate walkTo_ne
    | succ k =>
      rw [hk, stateAt] at hstate
      have := replay_of_answered hstate
      refine ⟨by omega, ?_⟩
      rw [show n - (j + 1) = k by omega, this, show delay - (j + 1) = d by omega]

end FillPeer

open FillPeer Posting in
/-- **`fill_peer` keeps its bounds** exactly when the peer never answers the eleventh post
of a block with a status inside 2xx that is no acceptance. -/
theorem fill_peer_bounded_iff {E : Env} {S : Set Str} {depth : Option ℕ} {s : Session}
    (hS : E.CollisionFree (insert genesisText S)) (h : Reachable E S depth s) (client : Bool)
    (lastBlock : Block) (answers : ℕ → PeerAnswer) :
    FillPeer.Bounded E s.db client lastBlock answers ↔
      NeverStuck E s.db client lastBlock answers := by
  have hl := (h.inv hS).ledger.linked
  have ht := (h.inv hS).tree hS
  constructor
  · rintro ⟨-, -, -, hreplayed⟩ n ⟨hodd, block, rest, hstate⟩
    -- the answer is followed by a twelfth post
    have hnext : stateAt E s.db client lastBlock answers (n + 1) = .replay block 11 rest := by
      rw [stateAt, hstate]
      cases ha : answers n with
      | transportError =>
        rw [ha] at hodd
        exact hodd.elim
      | status code =>
        rw [ha] at hodd
        simp [answered, hodd.1, hodd.2]
    have hposts := posts_before hnext
    have hn : 11 ≤ n + 1 := (hposts 11 le_rfl).1
    have hsub : (↑(Finset.Icc (n + 1 - 11) (n + 1)) : Set ℕ) ⊆
        {k | (stateAt E s.db client lastBlock answers k).Replays block} := by
      intro k hk
      obtain ⟨hlow, hhigh⟩ := Finset.mem_Icc.1 (Finset.mem_coe.1 hk)
      have hk := (hposts (n + 1 - k) (by omega)).2
      rw [show n + 1 - (n + 1 - k) = k by omega] at hk
      show (stateAt E s.db client lastBlock answers k).Replays block
      rw [hk]
      rfl
    have hle := (Set.encard_le_encard hsub).trans (hreplayed block)
    rw [Set.encard_coe_eq_coe_finsetCard, Nat.card_Icc, show n + 1 + 1 - (n + 1 - 11) = 12 by omega]
      at hle
    exact absurd hle (by norm_num)
  · intro hok
    refine ⟨returns_of_neverStuck hl ht hok, fun n parent hw => ?_, fun parent => ?_,
      fun block => ?_⟩
    · have habove := (stateAt_sound hl ht hok n).2
      cases hstate : stateAt E s.db client lastBlock answers n with
      | walk blocks p =>
        rw [hstate] at hw habove
        obtain rfl : p = parent := hw
        exact habove.subset (List.mem_cons_self ..)
      | replay b d r => rw [hstate] at hw; exact hw.elim
      | returned => rw [hstate] at hw; exact hw.elim
    · refine encard_le_of_progress hl ht hok (Walks parent) (- height s.db parent - 1) 1
        (fun p hp => by rintro rfl; exact hp) fun n hw => ?_
      cases hstate : stateAt E s.db client lastBlock answers n with
      | walk blocks p =>
        rw [hstate] at hw
        obtain rfl : p = parent := hw
        simp only [progress]
        omega
      | replay b d r => rw [hstate] at hw; exact hw.elim
      | returned => rw [hstate] at hw; exact hw.elim
    · refine encard_le_of_progress hl ht hok (Replays block) (11 * height s.db block) 11
        (fun p hp => by rintro rfl; exact hp) fun n hr => ?_
      have hs := (stateAt_sound hl ht hok n).1
      cases hstate : stateAt E s.db client lastBlock answers n with
      | replay b d r =>
        rw [hstate] at hr hs
        obtain rfl : b = block := hr
        have := hs.2
        simp only [progress]
        omega
      | walk bs p => rw [hstate] at hr; exact hr.elim
      | returned => rw [hstate] at hr; exact hr.elim

/-- On the sample chain, with a peer that knows none of it. -/
theorem fill_peer_bounded_iff_left :
    FillPeer.Bounded Sample.env Sample.state.db true Sample.left (fun _ => .status 404) ↔
      FillPeer.NeverStuck Sample.env Sample.state.db true Sample.left fun _ => .status 404 :=
  fill_peer_bounded_iff Sample.collisionFree Sample.reachable true Sample.left _

/-- A peer that answers every post with 204 is posted its first block for ever. -/
theorem fill_peer_stuck : ¬ ∀ (client : Bool) (lastBlock : Block) (answers : ℕ → PeerAnswer),
    FillPeer.Bounded Sample.env Sample.state.db client lastBlock answers := by
  intro h
  obtain ⟨n, hn⟩ := (h true Sample.genesis fun _ => .status 204).returns
  have hrun : ∀ n, FillPeer.stateAt Sample.env Sample.state.db true Sample.genesis
      (fun _ => .status 204) n = .replay Sample.genesis n [] := by
    intro n
    induction n with
    | zero =>
      have hgen : isGenesisBlock Sample.env Sample.genesis = true := by decide +kernel
      simp [FillPeer.stateAt, FillPeer.start, FillPeer.walkTo, FillPeer.startReplay, hgen]
    | succ n ih =>
      rw [FillPeer.stateAt, ih]
      simp [FillPeer.answered, accepts, raisesForStatus]
  rw [hrun n] at hn
  cases hn

end GumptionChain
