import GumptionChain.HonestPeer

/-!
# Export and import

`gc export` writes the canonical chain to a file, one block a line from the genesis on,
and goes on from the last line of a file that is there; `gc import` offers the lines of
a file to a node.

* `Session.Sound.nextBlock_eq` — the walk up the chain, through the children of each
  block, meets the canonical chain;
* `export_new`, `export_resumes` — what an export writes, and what a later one adds;
* `import_reproduces`, `import_iff` — what an import makes of it.
-/

namespace GumptionChain

open Database

/-! ## The walk up -/

namespace Database

/-- `BlockDAO.next`: the rows above. -/
def nextOf (db : Database) (b : BlockDAO) : List BlockDAO :=
  db.blocks.filter (·.prevId = some b.id)

/-- The loop of `next_block`. -/
def firstInChain (db : Database) (tip : BlockDAO) : List BlockDAO → Except Err (Option BlockDAO)
  | [] => .ok none
  | c :: rest => do
    let hit ← db.getBlockInChain tip (some c.blockHash) none
    match hit with
    | some _ => return some c
    | none => db.firstInChain tip rest

/-- `ChainDAO.next_block`, on the chain of `tip`. -/
def nextBlock (db : Database) (tip b : BlockDAO) : Except Err (Option BlockDAO) :=
  db.firstInChain tip (db.nextOf b)

variable {E : Env} {db : Database} {tip c : BlockDAO}

theorem firstInChain_eq (hs : db.Schema E) (h : db.Tree) (ht : tip ∈ db.blocks) :
    ∀ {l : List BlockDAO}, l ⊆ db.blocks →
      db.firstInChain tip l = .ok (l.find? (· ∈ db.path tip)) := by
  intro l
  induction l with
  | nil => exact fun _ => rfl
  | cons c rest ih =>
    intro hl
    rw [List.cons_subset] at hl
    rw [firstInChain, h.getBlockInChain_eq hs ht (Or.inl (by simp)), ok_bind, List.find?_cons]
    by_cases hc : c ∈ db.path tip
    · have hfound : db.walkBlock tip (some c.blockHash) none = some c :=
        (h.walkBlock_eq_some hs ht (Or.inl (by simp))).2 ⟨hc, matchesBlock_iff.2 (by simp)⟩
      rw [hfound, decide_eq_true hc]
      rfl
    · have hnone : db.walkBlock tip (some c.blockHash) none = none := by
        refine Option.eq_none_iff_forall_ne_some.2 fun d hd => hc ?_
        obtain ⟨hdm, hmatch⟩ := (h.walkBlock_eq_some hs ht (Or.inl (by simp))).1 hd
        rw [← List.inj_on_of_nodup_map hs.blockHashes (h.mem_blocks ht hdm) hl.1
          ((matchesBlock_iff.1 hmatch).1 _ rfl)]
        exact hdm
      rw [hnone, decide_eq_false hc]
      exact ih hl.2

/-- **The walk up from a block of the chain** finds the block above it in the chain. -/
theorem nextBlock_eq (hs : db.Schema E) (h : db.Tree) (ht : tip ∈ db.blocks)
    {above below : List BlockDAO} (hpath : db.path tip = above ++ c :: below) :
    db.nextBlock tip c = .ok above.getLast? := by
  have hmem : ∀ d ∈ db.path tip, d ∈ db.blocks := fun d hd => h.mem_blocks ht hd
  have hcm : c ∈ db.path tip := hpath ▸ by simp
  -- a child of `c` on the path is one higher than `c`
  have hchild : ∀ d ∈ db.nextOf c, d ∈ db.path tip → d.idx = c.idx + 1 := by
    intro d hd hdm
    obtain ⟨-, hid⟩ := List.mem_filter.1 hd
    refine h.idx d (hmem d hdm) c ?_
    rw [prev, of_decide_eq_true hid, Option.bind_some]
    exact (blockById_eq_some hs).2 ⟨hmem c hcm, rfl⟩
  rw [nextBlock, firstInChain_eq (l := db.nextOf c) hs h ht fun d hd => (List.mem_filter.1 hd).1,
    Except.ok.injEq]
  rcases List.eq_nil_or_concat' above with rfl | ⟨init, d, rfl⟩
  · rw [List.getLast?_nil, List.find?_eq_none]
    intro d hd hdm
    rw [decide_eq_true_eq] at hdm
    obtain ⟨-, hself⟩ := Forest.path_of_suffix h.ranked ht ⟨[], hpath.symm⟩
    have hle := (Forest.mem_path h.ranked (hmem c hcm) d (hself.trans hpath.symm ▸ hdm)).2
    have := hchild d hd hdm
    omega
  · rw [List.getLast?_concat]
    have hdm : d ∈ db.path tip := hpath ▸ by simp
    have hprev : db.prev d = some c :=
      Forest.parent_of_path h.ranked ht (hpath.trans (by simp) : _ = init ++ d :: c :: below)
    have hdnext : d ∈ db.nextOf c :=
      List.mem_filter.2 ⟨hmem d hdm, decide_eq_true (prev_mem hprev).2⟩
    cases hf : (db.nextOf c).find? (· ∈ db.path tip) with
    | none => exact absurd (decide_eq_true hdm) (List.find?_eq_none.1 hf d hdnext)
    | some x =>
      have hx : x ∈ db.path tip := by simpa using List.find?_some hf
      rw [Forest.eq_of_rank h.ranked ht hx hdm
        ((hchild x (List.mem_of_find?_eq_some hf) hx).trans (hchild d hdnext hdm).symm)]

end Database

/-! ## Export -/

/-- How the two commands fail. -/
inductive FileError where
  | noChain
  | chainMismatch
  | lineTooLong
  | read (e : Err)
  | add (e : Err)
  deriving DecidableEq

/-- A line of the file. -/
def exportLine (b : Block) : Str := b.toJson ++ ['\n']

/-- The loop of `export_blocks_command`, from a row on: the lines that it writes. -/
def exportFrom (db : Database) (tip : BlockDAO) :
    ℕ → Option BlockDAO → List Str × Except FileError Unit
  | 0, _ => ([], .ok ())
  | _, none => ([], .ok ())
  | n + 1, some b =>
    let line := exportLine (Block.fromDao db b)
    match db.nextBlock tip b with
    | .error e => ([line], .error (.read e))
    | .ok next =>
      let rest := exportFrom db tip n next
      (line :: rest.1, rest.2)

/-- The rows written to a file that has the lines `old`, from height `idx` on. -/
def exportAppend (db : Database) (tip : BlockDAO) (old : List Str) (idx : ℕ) :
    List Str × Except FileError Unit :=
  match db.getBlockInChain tip none (some idx) with
  | .error e => (old, .error (.read e))
  | .ok start =>
    let written := exportFrom db tip db.blocks.length start
    (old ++ written.1, written.2)

/-- `export_blocks_command`, on a file as the list of its lines: the lines afterwards and
how the command ended. -/
def exportBlocks (J : JsonLib) (E : Env) (file : Option (List Str)) (s : Session) :
    Option (List Str) × Except FileError Unit :=
  match s.db.longest.map Chain.fromDao with
  | none => (file, .error .noChain)
  | some lc =>
    match lc.toDao s with
    | .error e => (file, .error (.read e))
    | .ok (dao, s) =>
      match dao.bind fun dao => s.db.blockById dao.blockId with
      | none => (file, .error (.read .attributeError))
      | some tip =>
        match file.bind List.getLast? with
        | none =>
          let r := exportAppend s.db tip [] 0
          (some r.1, r.2)
        | some lastLine =>
          match Block.fromJson J E lastLine with
          | .error e => (file, .error (.read e))
          | .ok last =>
            match s.db.getBlockInChain tip last.blockHash none with
            | .error e => (file, .error (.read e))
            | .ok none => (file, .error .chainMismatch)
            | .ok (some _) =>
              let r := exportAppend s.db tip (file.getD []) ((last.idx.getD 0) + 1)
              (some r.1, r.2)

section

variable {E : Env} {S : Set Str} {J : JsonLib} {db : Database} {tip c : BlockDAO} {s : Session}
  {file : Option (List Str)}

/-- **The loop writes the rest of the chain**, lowest first. -/
theorem exportFrom_eq (hs : db.Schema E) (h : db.Tree) (ht : tip ∈ db.blocks)
    {below : List BlockDAO} : ∀ {n : ℕ} {above : List BlockDAO}, above.length < n →
    db.path tip = above ++ c :: below →
    exportFrom db tip n (some c) =
      ((above ++ [c]).reverse.map fun r => exportLine (Block.fromDao db r), .ok ()) := by
  intro n
  induction n generalizing c below with
  | zero => exact fun hn _ => absurd hn (Nat.not_lt_zero _)
  | succ n ih =>
    intro above hn hpath
    rw [exportFrom, nextBlock_eq hs h ht hpath]
    simp only
    rcases List.eq_nil_or_concat' above with rfl | ⟨init, d, rfl⟩
    · cases n <;> rfl
    · rw [List.getLast?_concat, ih (by simpa using hn)
        (hpath.trans (by simp) : _ = init ++ d :: c :: below)]
      simp

/-- **Writing from a height on writes the blocks of the chain from there on.** -/
theorem exportAppend_eq (hS : E.CollisionFree (insert genesisText S)) (h : s.Sound E S)
    (ht : s.db.longestTip = some tip) (old : List Str) (k : ℕ) :
    exportAppend s.db tip old k =
      (old ++ (s.canonical.reverse.drop k).map exportLine, .ok ()) := by
  have hs := h.inv.ledger.schema
  have htree := h.inv.tree hS
  have hblk := (h.best_of_tip ht).1
  have hlen := htree.length_path h.inv.ledger.linked.root hblk
  rw [exportAppend, htree.getBlockInChain_eq hs hblk (Or.inr (by simp)), Session.canonical_of_tip ht]
  simp only
  by_cases hk : k ≤ tip.idx
  · -- the block at that height, and the blocks of the path above it
    have hj : tip.idx - k < (s.db.path tip).length := by omega
    have hwalk := htree.walkBlock_idx hs h.inv.ledger.linked.root hblk (Nat.sub_le tip.idx k)
    rw [Nat.sub_sub_self hk, List.getElem?_eq_getElem hj] at hwalk
    have hsplit : s.db.path tip = (s.db.path tip).take (tip.idx - k) ++
        (s.db.path tip)[tip.idx - k] :: (s.db.path tip).drop (tip.idx - k + 1) := by
      rw [List.cons_getElem_drop_succ, List.take_append_drop]
    have hfuel : ((s.db.path tip).take (tip.idx - k)).length < s.db.blocks.length := by
      have hsub := ((Forest.path_nodup htree.ranked hblk).subperm fun c hc =>
        htree.mem_blocks hblk hc).length_le
      have hle : (Forest.path s.db.prev BlockDAO.idx tip).length = tip.idx + 1 := hlen
      rw [List.length_take]
      omega
    rw [hwalk, exportFrom_eq hs htree hblk hfuel hsplit, List.take_concat_get', List.reverse_take,
      hlen, show tip.idx + 1 - (tip.idx - k + 1) = k by omega, pathBlocks, ← List.map_reverse,
      ← List.map_drop, List.map_map]
    rfl
  · have hnone : s.db.walkBlock tip none (some k) = none := by
      refine Option.eq_none_iff_forall_ne_some.2 fun c hc => ?_
      obtain ⟨hcm, hmatch⟩ := (htree.walkBlock_eq_some hs hblk (Or.inr (by simp))).1 hc
      have hidx := (matchesBlock_iff.1 hmatch).2 k rfl
      have hle := (Forest.mem_path htree.ranked hblk c hcm).2
      omega
    rw [hnone, List.drop_eq_nil_of_le, List.map_nil]
    · cases s.db.blocks.length <;> rfl
    · rw [List.length_reverse, pathBlocks, List.length_map]
      omega

/-- The command, once the longest chain is found. -/
theorem exportBlocks_of_tip (h : s.Sound E S) (ht : s.db.longestTip = some tip) :
    exportBlocks J E file s =
      match file.bind List.getLast? with
      | none => (some (exportAppend s.db tip [] 0).1, (exportAppend s.db tip [] 0).2)
      | some lastLine =>
        match Block.fromJson J E lastLine with
        | .error e => (file, .error (.read e))
        | .ok last =>
          match s.db.getBlockInChain tip last.blockHash none with
          | .error e => (file, .error (.read e))
          | .ok none => (file, .error .chainMismatch)
          | .ok (some _) =>
            (some (exportAppend s.db tip (file.getD []) ((last.idx.getD 0) + 1)).1,
              (exportAppend s.db tip (file.getD []) ((last.idx.getD 0) + 1)).2) := by
  cases hl : s.db.longest with
  | none =>
    rw [longestTip, hl] at ht
    cases ht
  | some c =>
    rw [longestTip, hl, Option.bind_some] at ht
    simp only [exportBlocks, hl, Option.map_some, h.nodeLcDao_eq.2 c hl, Option.bind_some, ht]

theorem Session.exists_tip_of_canonical (hne : s.canonical ≠ []) :
    ∃ tip, s.db.longestTip = some tip := by
  cases ht : s.db.longestTip with
  | none => exact absurd (by rw [Session.canonical, ht]; rfl) hne
  | some tip => exact ⟨tip, rfl⟩

/-- **A new export holds the canonical chain**, lowest block first. -/
theorem export_new (hS : E.CollisionFree (insert genesisText S)) (h : s.Sound E S)
    (hne : s.canonical ≠ []) (hfile : file.bind List.getLast? = none) :
    exportBlocks J E file s = (some (s.canonical.reverse.map exportLine), .ok ()) := by
  obtain ⟨tip, ht⟩ := Session.exists_tip_of_canonical hne
  rw [exportBlocks_of_tip h ht, hfile]
  simp only
  rw [exportAppend_eq hS h ht, List.nil_append, List.drop_zero]

end

section

variable {E : Env} {S : Set Str} {J : JsonLib} {depth : Option ℕ} {now : DateTime} {e e' : Session}

/-- A line of an export is read back as the block. -/
theorem NodeRun.fromJson_exportLine (hS : E.CollisionFree (insert genesisText S))
    (he : NodeRun E (AuditedAddition S now) depth e) {b : Block} (hb : b ∈ e.canonical)
    (hj : J.loads (exportLine b) = .ok b.toDict) :
    Block.fromJson J E (exportLine b) = .ok b := by
  have hwell := ((he.accepted_canonical hS).mem b hb).1.wellFormed
  rw [e.canonical_eq_map] at hb
  obtain ⟨r, -, rfl⟩ := List.mem_map.1 hb
  unfold Block.fromJson
  rw [hj]
  exact Block.fromDict_fromDao e.db r hwell

/-- **An export goes on where the last one ended.**  The node adds blocks with canonical
timestamps, by `now`, before the export and after it.  Run again on its file in any later
state, the command leaves what a new export would write, if the chain of the file is still
part of the canonical one; if it is not, it fails and the file stays as it was. -/
theorem export_resumes (hS : E.CollisionFree (insert genesisText S))
    (he : NodeRun E (AuditedAddition S now) depth e)
    (hrun : SessionRun E (fun _ t b => AuditedAddition S now t b) depth e e')
    (hne : e.canonical ≠ []) (hj : ∀ b ∈ e.canonical, J.loads (exportLine b) = .ok b.toDict) :
    exportBlocks J E (some (e.canonical.reverse.map exportLine)) e' =
      if e.canonical <:+ e'.canonical then (some (e'.canonical.reverse.map exportLine), .ok ())
      else (some (e.canonical.reverse.map exportLine), .error .chainMismatch) := by
  have hsound : e.Sound E S := he.session.sound hS (fun _ _ _ hb => hb.1) .empty
  have hsound' : e'.Sound E S := hrun.sound hS (fun _ _ _ hb => hb.1) hsound
  have hs' := hsound'.inv.ledger.schema
  have htree' := hsound'.inv.tree hS
  obtain ⟨t, ht⟩ := Session.exists_tip_of_canonical hne
  obtain ⟨htm, hpath⟩ := hrun.pathBlocks hS (fun _ _ _ hb => hb.1) hsound
    (hsound.best_of_tip ht).1
  have hchain : e.canonical = e'.db.pathBlocks t := (Session.canonical_of_tip ht).trans hpath.symm
  obtain ⟨below, hcons⟩ : ∃ below, e.canonical = Block.fromDao e'.db t :: below := by
    rw [hchain, pathBlocks, path, Forest.path, Forest.walk]
    exact ⟨_, rfl⟩
  obtain ⟨t', ht'⟩ := hsound'.exists_longestTip htm
  have hblk' := (hsound'.best_of_tip ht'.1).1
  have hlast : ((some (e.canonical.reverse.map exportLine)).bind List.getLast? : Option Str) =
      some (exportLine (Block.fromDao e'.db t)) := by
    rw [hcons, Option.bind_some, List.reverse_cons, List.map_append, List.map_cons, List.map_nil,
      List.getLast?_concat]
  have hmem : Block.fromDao e'.db t ∈ e.canonical := hcons ▸ List.mem_cons_self
  rw [exportBlocks_of_tip hsound' ht'.1, hlast]
  simp only
  rw [he.fromJson_exportLine hS hmem (hj _ hmem)]
  simp only
  rw [htree'.getBlockInChain_eq hs' hblk' (Or.inl (by simp [Block.fromDao]))]
  -- the row of the last line is found exactly if it is on the chain
  have hcanonical' : e'.canonical = e'.db.pathBlocks t' := Session.canonical_of_tip ht'.1
  have hfound : e.canonical <:+ e'.canonical ↔
      (e'.db.walkBlock t' (Block.fromDao e'.db t).blockHash none).isSome := by
    rw [Option.isSome_iff_exists]
    constructor
    · intro hsuf
      have hin := hsuf.subset hmem
      rw [hcanonical'] at hin
      obtain ⟨r, hr, heq⟩ := List.mem_map.1 hin
      refine ⟨r, (htree'.walkBlock_eq_some hs' hblk' (Or.inl (by simp [Block.fromDao]))).2
        ⟨hr, matchesBlock_iff.2 ⟨fun x hx => ?_, by simp⟩⟩⟩
      exact Option.some.inj ((congrArg Block.blockHash heq).trans hx)
    · rintro ⟨c, hc⟩
      obtain ⟨hcm, hmatch⟩ :=
        (htree'.walkBlock_eq_some hs' hblk' (Or.inl (by simp [Block.fromDao]))).1 hc
      obtain rfl : c = t := List.inj_on_of_nodup_map hs'.blockHashes
        (htree'.mem_blocks hblk' hcm) htm ((matchesBlock_iff.1 hmatch).1 _ rfl)
      rw [hchain, hcanonical']
      exact (Forest.path_suffix htree'.ranked hblk' hcm).map _
  split_ifs with hsuf
  · obtain ⟨c, hc⟩ := Option.isSome_iff_exists.1 (hfound.1 hsuf)
    rw [hc]
    simp only
    have hidx : ((Block.fromDao e'.db t).idx.getD 0) + 1 = e.canonical.reverse.length := by
      rw [List.length_reverse, hsound.length_canonical hS ht]
      rfl
    obtain ⟨above, hsplit⟩ := hsuf
    rw [exportAppend_eq hS hsound' ht'.1, hidx, ← hsplit, List.reverse_append, List.drop_left,
      List.map_append]
    rfl
  · rw [hfound, Option.not_isSome_iff_eq_none] at hsuf
    rw [hsuf]

end

/-! ## Import -/

/-- `MAX_IMPORT_LINE_BYTES`, a number of characters. -/
def maxImportLineBytes : ℕ := 4 * 1024 * 1024

/-- The second loop of `import_blocks_command`; each line comes with the moment the node
gets to it. -/
def importLines (J : JsonLib) (E : Env) (depth : Option ℕ) :
    List (Moment × Str) → Session → Session × Except FileError Unit
  | [], s => (s, .ok ())
  | (m, line) :: rest, s =>
    match Block.fromJson J E line with
    | .error e => (s, .error (.read e))
    | .ok b =>
      match Block.fromDb s.db b.blockHash with
      | some _ => importLines J E depth rest s
      | none =>
        match Node.addBlock E depth m.now true b (s.forget m.dropped) with
        | .ok (_, s') => importLines J E depth rest s'
        | .error e => (s, .error (.add e))

/-- `import_blocks_command`: what the tables are afterwards and how the command ended.  The
first loop, which counts the lines, already refuses one that is too long. -/
def importBlocks (J : JsonLib) (E : Env) (depth : Option ℕ) (lines : List (Moment × Str))
    (s : Session) : Session × Except FileError Unit :=
  if lines.any fun l => maxImportLineBytes < l.2.length then (s, .error .lineTooLong)
  else importLines J E depth lines s

section

variable {E : Env} {S : Set Str} {J : JsonLib} {depth depth' : Option ℕ} {now : DateTime}
  {e s : Session} {below chain rest : List Block} {lines : List (Moment × Str)}

/-- A block of the canonical chain is stored under its hash. -/
theorem Session.Sound.fromDb_canonical (hS : E.CollisionFree (insert genesisText S))
    (h : s.Sound E S) {c : Block} (hc : c ∈ s.canonical) :
    Block.fromDb s.db c.blockHash = some c := by
  rw [s.canonical_eq_map] at hc
  obtain ⟨r, hr, rfl⟩ := List.mem_map.1 hc
  have hblk := h.mem_of_canonicalRows hS hr
  exact congrArg _ ((blockByHash_eq_some h.inv.ledger.schema).2
    ⟨h.inv.ledger.blockHash_ne_nil hblk, hblk, rfl⟩)

/-- Lines within the limit get to the second loop. -/
theorem importBlocks_eq {blocks : List Block}
    (hshort : ∀ b ∈ blocks, (exportLine b).length ≤ maxImportLineBytes)
    (hlines : lines.map Prod.snd = blocks.map exportLine) :
    importBlocks J E depth lines s = importLines J E depth lines s := by
  rw [importBlocks, if_neg]
  intro hlong
  obtain ⟨l, hl, hlt⟩ := List.any_eq_true.1 hlong
  have hmem : l.2 ∈ blocks.map exportLine := hlines ▸ List.mem_map_of_mem hl
  obtain ⟨b, hb, heq⟩ := List.mem_map.1 hmem
  exact absurd (of_decide_eq_true hlt) (not_lt.2 (heq ▸ hshort b hb))

/-- Lines of blocks that are stored are passed over. -/
theorem importLines_skip (hS : E.CollisionFree (insert genesisText S))
    (he : NodeRun E (AuditedAddition S now) depth' e) {more : List (Moment × Str)} :
    ∀ {blocks : List Block} {lines : List (Moment × Str)}, blocks ⊆ e.canonical →
      (∀ b ∈ blocks, J.loads (exportLine b) = .ok b.toDict) →
      (∀ b ∈ blocks, Block.fromDb s.db b.blockHash ≠ none) →
      lines.map Prod.snd = blocks.map exportLine →
      importLines J E depth (lines ++ more) s = importLines J E depth more s := by
  intro blocks
  induction blocks with
  | nil =>
    intro lines _ _ _ hlines
    rw [List.map_nil, List.map_eq_nil_iff] at hlines
    rw [hlines, List.nil_append]
  | cons b blocks ih =>
    intro lines hsub hj hstored hlines
    rw [List.map_cons, List.map_eq_cons_iff] at hlines
    obtain ⟨⟨m, line⟩, lines, rfl, rfl, hlines⟩ := hlines
    rw [List.cons_subset] at hsub
    rw [List.forall_mem_cons] at hj hstored
    obtain ⟨c, hc⟩ := Option.ne_none_iff_exists'.1 hstored.1
    rw [List.cons_append, importLines, he.fromJson_exportLine hS hsub.1 hj.1]
    simp only
    rw [hc]
    exact ih hsub.2 hj.2 hstored.2 hlines

/-- One line of the export of a chain, at a node that has not stored its block. -/
theorem importLines_new (hS : E.CollisionFree (insert genesisText S))
    (he : NodeRun E (AuditedAddition S now) depth' e) {b : Block} (hb : b ∈ e.canonical)
    (hj : J.loads (exportLine b) = .ok b.toDict) (hnew : s.db.blockByHash b.blockHash = none)
    (m : Moment) (more : List (Moment × Str)) :
    importLines J E depth ((m, exportLine b) :: more) s =
      match Node.tryAddBlock E depth m.now b (s.forget m.dropped) with
      | .ok s' => importLines J E depth more s'
      | .error e => (s, .error (.add e)) := by
  rw [importLines, he.fromJson_exportLine hS hb hj]
  simp only
  rw [Block.fromDb, hnew, Option.map_none]
  simp only
  unfold Node.addBlock
  cases Node.tryAddBlock E depth m.now b (s.forget m.dropped) with
  | ok s' => rfl
  | error e =>
    simp only [Session.forget_db, hnew, Option.isSome_none, Bool.false_eq_true, and_false, if_false]

/-- The lines above what a node holds: what every block takes from one height to the next,
the import takes to the last line. -/
theorem importLines_induction (depth : Option ℕ) (hS : E.CollisionFree (insert genesisText S))
    (he : NodeRun E (AuditedAddition S now) depth' e)
    (hj : ∀ b ∈ e.canonical, J.loads (exportLine b) = .ok b.toDict)
    {I : List Block → Session → Prop}
    (hsame : ∀ chain u, I chain u → u.Sound E S ∧ List.Forall₂ Block.Same u.canonical chain)
    (hforget : ∀ chain u dropped, I chain u → I chain (u.forget dropped))
    (hstep : ∀ b chain u t, b :: chain <:+ e.canonical → I chain u → now.toSeconds ≤ t.toSeconds →
      ∃ u', Node.tryAddBlock E depth t b u = .ok u' ∧ I (b :: chain) u') :
    ∀ {rest chain : List Block} {u : Session} {lines : List (Moment × Str)},
      rest.reverse ++ chain = e.canonical → I chain u →
      (∀ l ∈ lines, now.toSeconds ≤ l.1.now.toSeconds) →
      lines.map Prod.snd = rest.map exportLine →
      ∃ u', importLines J E depth lines u = (u', .ok ()) ∧ I e.canonical u' := by
  intro rest
  induction rest with
  | nil =>
    intro chain u lines hchain hI _ hlines
    rw [List.map_nil, List.map_eq_nil_iff] at hlines
    exact ⟨u, hlines ▸ rfl, hchain ▸ hI⟩
  | cons b rest ih =>
    intro chain u lines hchain hI hclock hlines
    rw [List.map_cons, List.map_eq_cons_iff] at hlines
    obtain ⟨⟨m, line⟩, lines, rfl, rfl, hlines⟩ := hlines
    rw [List.forall_mem_cons] at hclock
    rw [List.reverse_cons, List.append_assoc, List.singleton_append] at hchain
    have hsuf : b :: chain <:+ e.canonical := ⟨_, hchain⟩
    have hb := hsuf.subset List.mem_cons_self
    obtain ⟨hsound, hforall⟩ := hsame chain u hI
    obtain ⟨u', hadd, hI'⟩ := hstep b chain _ m.now hsuf (hforget chain u m.dropped hI) hclock.1
    rw [importLines_new hS he hb (hj b hb)
      (hsound.new_of_replayable hS hforall (he.replayable hS hsuf).2), hadd]
    exact ih hchain hI' hclock.2 hlines

/-- **Importing an export reproduces the chain.**  The exporting node has added blocks with
canonical timestamps, by `now`, and no line is longer than `MAX_IMPORT_LINE_BYTES`.  On a
node whose canonical chain is a part of the exported one, and whose clock does not fall
behind `now`, the stored blocks are passed over and the others are added, if no transaction
of the chain spends another of its block. -/
theorem import_reproduces (hS : E.CollisionFree (insert genesisText S))
    (he : NodeRun E (AuditedAddition S now) depth' e) (hfree : ∀ b ∈ e.canonical, b.Unchained)
    (hj : ∀ b ∈ e.canonical, J.loads (exportLine b) = .ok b.toDict)
    (hshort : ∀ b ∈ e.canonical, (exportLine b).length ≤ maxImportLineBytes)
    (hs : SessionRun E (fun _ _ b => b.Hashed S) depth {} s) (hbelow : below <:+ e.canonical)
    (hsame : List.Forall₂ Block.Same s.canonical below)
    (hclock : ∀ l ∈ lines, now.toSeconds ≤ l.1.now.toSeconds)
    (hlines : lines.map Prod.snd = e.canonical.reverse.map exportLine) :
    ∃ s', importBlocks J E depth lines s = (s', .ok ()) ∧
      List.Forall₂ Block.Same s'.canonical e.canonical := by
  have hsound := hs.sound_empty hS
  obtain ⟨above, hsplit⟩ := hbelow
  have hsub : below.reverse ⊆ e.canonical := fun b hb =>
    hsplit ▸ List.mem_append_right _ (List.mem_reverse.1 hb)
  -- the lines of what is stored come first
  have hparts := hlines
  rw [← hsplit, List.reverse_append, List.map_append, List.map_eq_append_iff] at hparts
  obtain ⟨old, new, rfl, hold, hnew⟩ := hparts
  have hstored : ∀ b ∈ below.reverse, Block.fromDb s.db b.blockHash ≠ none := by
    intro b hb
    obtain ⟨i, hi, rfl⟩ := List.mem_iff_getElem.1 (List.mem_reverse.1 hb)
    have hsame' := hsame.get (hsame.length_eq.symm ▸ hi) hi
    have hread := hsound.fromDb_canonical hS (List.get_mem s.canonical ⟨i, hsame.length_eq.symm ▸ hi⟩)
    rw [hsame'.blockHash] at hread
    exact Option.ne_none_iff_exists'.2 ⟨_, hread⟩
  have hwhole : above.reverse.reverse ++ below = e.canonical := by
    rw [List.reverse_reverse, hsplit]
  have hrun := importLines_induction depth hS he hj
    (I := fun chain u => u.Sound E S ∧ List.Forall₂ Block.Same u.canonical chain)
    (fun _ _ h => h) (fun _ _ dropped h => ⟨h.1.forgets dropped, h.2⟩)
    (fun b chain u t hsuf hu ht => ?_) hwhole ⟨hsound, hsame⟩
    (fun l hl => hclock l (List.mem_append_right _ hl)) hnew
  · obtain ⟨s', hs', hcanonical⟩ := hrun
    refine ⟨s', ?_, hcanonical.2⟩
    rw [importBlocks_eq (fun b hb => hshort b (List.mem_reverse.1 hb)) hlines,
      importLines_skip hS he hsub (fun b hb => hj b (hsub hb)) hstored hold, hs']
  · exact hu.1.replays hS hu.2 (he.replayable hS hsuf).2 ht
      (hfree b (hsuf.subset List.mem_cons_self))

/-- The lines above a chain, at a node with nothing but it. -/
theorem importLines_iff (depth : Option ℕ) (hS : E.CollisionFree (insert genesisText S))
    (he : NodeRun E (AuditedAddition S now) depth' e)
    (hj : ∀ b ∈ e.canonical, J.loads (exportLine b) = .ok b.toDict) :
    ∀ {rest chain : List Block} {u : Session} {lines : List (Moment × Str)},
      rest.reverse ++ chain = e.canonical → u.Holds E S chain →
      (∀ l ∈ lines, now.toSeconds ≤ l.1.now.toSeconds) →
      lines.map Prod.snd = rest.map exportLine →
      ((importLines J E depth lines u).2 = .ok () ↔ ∀ b ∈ rest, b.Unchained) ∧
        ((importLines J E depth lines u).2 = .ok () →
          (importLines J E depth lines u).1.Holds E S e.canonical) := by
  intro rest
  induction rest with
  | nil =>
    intro chain u lines hchain hu _ hlines
    rw [List.map_nil, List.map_eq_nil_iff] at hlines
    subst hlines
    exact ⟨by simp [importLines], fun _ => hchain ▸ hu⟩
  | cons b rest ih =>
    intro chain u lines hchain hu hclock hlines
    rw [List.map_cons, List.map_eq_cons_iff] at hlines
    obtain ⟨⟨m, line⟩, lines, rfl, rfl, hlines⟩ := hlines
    rw [List.forall_mem_cons] at hclock
    rw [List.reverse_cons, List.append_assoc, List.singleton_append] at hchain
    have hsuf : b :: chain <:+ e.canonical := ⟨_, hchain⟩
    have hb := hsuf.subset List.mem_cons_self
    obtain ⟨-, hreplayable⟩ := he.replayable hS hsuf
    obtain ⟨hiff, hholds⟩ := (hu.forgets m.dropped).replay depth hS hreplayable hclock.1
    rw [importLines_new hS he hb (hj b hb)
      (hu.sound.new_of_replayable hS hu.same hreplayable), List.forall_mem_cons]
    cases hadd : Node.tryAddBlock E depth m.now b (u.forget m.dropped) with
    | ok u' =>
      obtain ⟨hrest, hend⟩ := ih hchain (hholds u' hadd) hclock.2 hlines
      exact ⟨hrest.trans (iff_and_self.2 fun _ => hiff.1 ⟨u', hadd⟩), hend⟩
    | error err =>
      refine ⟨⟨fun h => (by cases h), fun h => ?_⟩, fun h => by cases h⟩
      obtain ⟨u', hu'⟩ := hiff.2 h.1
      rw [hadd] at hu'
      cases hu'

/-- **What importing an export into an empty node makes of it**, under the same conditions
on the timestamps, the lines and the clock.  It succeeds exactly when no transaction of the
chain spends another of its block, and the node then has the chain as it was: its own
export is the same file. -/
theorem import_iff (hS : E.CollisionFree (insert genesisText S))
    (he : NodeRun E (AuditedAddition S now) depth' e) (hne : e.canonical ≠ [])
    (hj : ∀ b ∈ e.canonical, J.loads (exportLine b) = .ok b.toDict)
    (hshort : ∀ b ∈ e.canonical, (exportLine b).length ≤ maxImportLineBytes)
    (hclock : ∀ l ∈ lines, now.toSeconds ≤ l.1.now.toSeconds)
    (hlines : exportBlocks J E none e = (some (lines.map Prod.snd), .ok ())) :
    ((importBlocks J E depth lines {}).2 = .ok () ↔ ∀ b ∈ e.canonical, b.Unchained) ∧
      ((importBlocks J E depth lines {}).2 = .ok () →
        (importBlocks J E depth lines {}).1.canonical = e.canonical ∧
        exportBlocks J E none (importBlocks J E depth lines {}).1 =
          (some (lines.map Prod.snd), .ok ())) := by
  have hsound : e.Sound E S := he.session.sound hS (fun _ _ _ hb => hb.1) .empty
  have hfile : lines.map Prod.snd = e.canonical.reverse.map exportLine := by
    rw [export_new hS hsound hne rfl, Prod.mk.injEq, Option.some.injEq] at hlines
    exact hlines.1.symm
  rw [importBlocks_eq (fun b hb => hshort b (List.mem_reverse.1 hb)) hfile]
  have hwhole : e.canonical.reverse.reverse ++ [] = e.canonical := by simp
  obtain ⟨hiff, hend⟩ := importLines_iff depth hS he hj hwhole .empty hclock hfile
  refine ⟨hiff.trans (by simp), fun hok => ?_⟩
  have hholds := hend hok
  refine ⟨hholds.canonical, ?_⟩
  rw [export_new hS hholds.sound (hholds.canonical ▸ hne) rfl, hholds.canonical, hfile]

end

namespace Sample

/-- A library that reads back the lines of the given blocks. -/
def lineLib (written : List Block) : JsonLib where
  loads s :=
    match written.find? fun b => exportLine b = s with
    | some b => .ok b.toDict
    | none => .error "Invalid JSON"
  asInt := strictInt
  asStr := strictStr
  asInt_int := strictInt_int
  asStr_str := strictStr_str

theorem loads_lineLib : ∀ b ∈ [left, genesis],
    (lineLib [left, genesis]).loads (exportLine b) = .ok b.toDict := by
  have hother : exportLine left ≠ exportLine genesis := by decide +kernel
  intro b hb
  rcases List.mem_pair.1 hb with rfl | rfl
  · simp only [lineLib, List.find?_cons, decide_true]
  · simp only [lineLib, List.find?_cons, decide_eq_false hother, decide_true]

theorem short_lines : ∀ b ∈ [left, genesis], (exportLine b).length ≤ maxImportLineBytes := by
  decide +kernel

/-- The node after the first block. -/
def firstState : Session := Node.processAll env none {} ([genesis].map call)

theorem firstState_audited : NodeRun env (AuditedAddition texts day) none firstState :=
  NodeRun.empty.processAll (audited (by simp))

theorem canonical_firstState : firstState.canonical = [genesis] := by
  decide +kernel

theorem state_of_firstState :
    SessionRun env (fun _ t b => AuditedAddition texts day t b) none firstState state := by
  have hsplit : state = Node.processAll env none firstState ([left, right].map call) := by
    simp only [state, firstState, Node.processAll, List.map_cons, List.map_nil, List.foldl_cons,
      List.foldl_nil]
  rw [hsplit]
  exact SessionRun.processAll .refl fun _ => audited (by simp)

/-- The export of the fork, each line read on that day, with all row objects dropped. -/
def exported : List (Moment × Str) := state.canonical.reverse.map fun b => (anew, exportLine b)

theorem exported_lines : exported.map Prod.snd = state.canonical.reverse.map exportLine := by
  rw [exported, List.map_map]
  rfl

theorem exported_clock : ∀ l ∈ exported, day.toSeconds ≤ l.1.now.toSeconds := by
  intro l hl
  obtain ⟨b, -, rfl⟩ := List.mem_map.1 hl
  exact le_refl _

end Sample

/-- The export of the first block, run again with `left` above it. -/
theorem export_resumes_first :
    exportBlocks (Sample.lineLib [Sample.left, Sample.genesis]) Sample.env
        (some (Sample.firstState.canonical.reverse.map exportLine)) Sample.state =
      if Sample.firstState.canonical <:+ Sample.state.canonical then
        (some (Sample.state.canonical.reverse.map exportLine), .ok ())
      else (some (Sample.firstState.canonical.reverse.map exportLine), .error .chainMismatch) :=
  export_resumes Sample.collisionFree Sample.firstState_audited Sample.state_of_firstState
    (by rw [Sample.canonical_firstState]; simp)
    (by
      rw [Sample.canonical_firstState]
      exact fun b hb => Sample.loads_lineLib b (List.mem_cons_of_mem _ hb))

/-- The export of the fork, at the node that has its first block. -/
theorem import_reproduces_left :
    ∃ s', importBlocks (Sample.lineLib [Sample.left, Sample.genesis]) Sample.env none
        Sample.exported Sample.firstState = (s', .ok ()) ∧
      List.Forall₂ Block.Same s'.canonical Sample.state.canonical := by
  have hbelow : [Sample.genesis] <:+ Sample.state.canonical := by
    rw [Sample.canonical_state]
    exact List.suffix_cons _ _
  have hsame : List.Forall₂ Block.Same Sample.firstState.canonical [Sample.genesis] := by
    rw [Sample.canonical_firstState]
    exact .cons (Block.Same.refl _) .nil
  refine import_reproduces Sample.collisionFree Sample.state_audited Sample.state_unchained ?_ ?_
    (SessionRun.processAll .refl fun _ => Sample.hashed (by decide)) hbelow hsame
    Sample.exported_clock Sample.exported_lines
  · rw [Sample.canonical_state]
    exact Sample.loads_lineLib
  · rw [Sample.canonical_state]
    exact Sample.short_lines

/-- The export of the fork, at an empty node. -/
theorem import_iff_left :
    ((importBlocks (Sample.lineLib [Sample.left, Sample.genesis]) Sample.env none Sample.exported
        {}).2 = .ok () ↔ ∀ b ∈ Sample.state.canonical, b.Unchained) ∧
      ((importBlocks (Sample.lineLib [Sample.left, Sample.genesis]) Sample.env none Sample.exported
          {}).2 = .ok () →
        (importBlocks (Sample.lineLib [Sample.left, Sample.genesis]) Sample.env none Sample.exported
          {}).1.canonical = Sample.state.canonical ∧
        exportBlocks (Sample.lineLib [Sample.left, Sample.genesis]) Sample.env none
          (importBlocks (Sample.lineLib [Sample.left, Sample.genesis]) Sample.env none
            Sample.exported {}).1 = (some (Sample.exported.map Prod.snd), .ok ())) := by
  have hne : Sample.state.canonical ≠ [] := by
    rw [Sample.canonical_state]
    simp
  have hsound := (Sample.state_run).sound_empty Sample.collisionFree
  refine import_iff Sample.collisionFree Sample.state_audited hne ?_ ?_ Sample.exported_clock ?_
  · rw [Sample.canonical_state]
    exact Sample.loads_lineLib
  · rw [Sample.canonical_state]
    exact Sample.short_lines
  · rw [Sample.exported_lines]
    exact export_new Sample.collisionFree hsound hne rfl

end GumptionChain
