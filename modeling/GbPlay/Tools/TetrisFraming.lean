import GbPlay.Library.Phases
import GbPlay.Tools.Tetris
import Mathlib.Data.List.TakeWhile

/-!
# Role exchanges before the blocks of data

`data_handler` on every stream of replies.  Its states are those of a script in
five phases, of which the last two send the garbage and the pieces.  A reply is
judged by the state alone, and the first reply in a state is to the last byte that
the state before it has sent.
-/

namespace GbPlay.Tools.Tetris.Framing

open GbPlay.Server.Client (Byte)
open GbPlay.Server.Tetris.Data (Draws)
open GbPlay.Library.Phases
open TetrisLinkInitializer

/-- Where a byte has been taken from. -/
inductive Source
  | constant
  | initialGarbage
  | pieces
  deriving DecidableEq, Repr

structure Output where
  source : Source
  byte : Byte
  deriving DecidableEq, Repr

/-- What `data_handler` has been called with and what it has returned. -/
abbrev Call := Option Byte × Output

def isOf (source : Source) (c : Call) : Bool := c.2.source = source

/-- The bytes of a block, in order. -/
def bytesOf (source : Source) (calls : List Call) : List Byte :=
  (calls.filter (isOf source)).map fun c => c.2.byte

/-- The source of a byte that `data_handler` returns on its way between two states. -/
def source (before after : TetrisGameState) : Source :=
  if before = .sendingInitialGarbage ∨ after = .sendingInitialGarbage then .initialGarbage
  else if after = .sendingPieces then .pieces
  else .constant

/-- The calls of `data_handler`, and whether the last one has returned Python's `None`.
`none` when one raises. -/
def converse (s : TetrisLinkInitializer) : List (Option Byte) → Option (List Call × Bool)
  | [] => some ([], false)
  | data :: inputs =>
      match s.dataHandler data with
      | none => none
      | some (_, none) => some ([], true)
      | some (s', some toSend) =>
          (converse s' inputs).map fun x =>
            ((data, ⟨source s.state s'.state, toSend⟩) :: x.1, x.2)

/-- These are the calls that `_enter_slave_mode` makes. -/
theorem converse_of_exchangeAll {replies : List Byte} {s : TetrisLinkInitializer}
    {response last : Option Byte} {sent : List Sent}
    (h : exchangeAll s response replies = some (sent, last)) :
    ∃ calls, converse s (response :: replies.map some) = some (calls, true) ∧
      calls.map Prod.snd = sent.map fun x => ⟨source x.before x.after, x.byte⟩ := by
  induction replies generalizing s response sent with
  | nil =>
      rw [exchangeAll] at h
      split at h <;> cases h
      rename_i hdone
      exact ⟨[], by simp [converse, hdone], rfl⟩
  | cons reply replies ih =>
      rw [exchangeAll] at h
      split at h
      · cases h
      · rename_i hdone
        cases h
        exact ⟨[], by simp [converse, hdone], rfl⟩
      · rename_i s' toSend hsends
        split at h <;> cases h
        rename_i rest _ hrest
        obtain ⟨calls, hconverse, hcalls⟩ := ih hrest
        refine ⟨(response, ⟨source s.state s'.state, toSend⟩) :: calls, ?_, ?_⟩
        · rw [List.map_cons, converse, hsends]
          simp only [hconverse, Option.map_some]
        · rw [List.map_cons, hcalls, List.map_cons]

/-- The tables of an initializer. -/
structure Tables where
  garbage : List Byte
  pieces : List Byte
  length_garbage : garbage.length = 100
  length_pieces : pieces.length = 256

def Tables.initializer (t : Tables) : TetrisLinkInitializer :=
  { initialGarbage := t.garbage, pieces := t.pieces }

def tables (ds : Draws) : Tables where
  garbage := (getLinkInitializer ds).1.initialGarbage
  pieces := (getLinkInitializer ds).1.pieces
  length_garbage := length_garbageCells 100 ds
  length_pieces := length_nextPieces 256 0 0 _

theorem getLinkInitializer_eq (ds : Draws) : (getLinkInitializer ds).1 = (tables ds).initializer :=
  rfl

/-! ## The phases -/

def constant (b : Byte) : Output := ⟨.constant, b⟩

def rolesPhase : Phase (Option Byte) Output where
  awaited := some slaveMagic
  poll := constant masterMagic
  data := [constant musicAMagic]
  data_ne_nil := by simp

def musicPhase : Phase (Option Byte) Output where
  awaited := some waitingForMusicMagic
  poll := constant musicAMagic
  data := [constant confirmMusicSelectionMagic]
  data_ne_nil := by simp

def difficultyPhase : Phase (Option Byte) Output where
  awaited := some 0
  poll := constant 0
  data := [constant confirmDifficultySelectionMagic]
  data_ne_nil := by simp

namespace Tables

def garbageOutputs (t : Tables) : List Output := t.garbage.map (Output.mk .initialGarbage)

def piecesOutputs (t : Tables) : List Output := t.pieces.map (Output.mk .pieces)

@[simp] theorem length_garbageOutputs (t : Tables) : t.garbageOutputs.length = 100 := by
  simp [garbageOutputs, t.length_garbage]

@[simp] theorem length_piecesOutputs (t : Tables) : t.piecesOutputs.length = 256 := by
  simp [piecesOutputs, t.length_pieces]

def garbagePhase (t : Tables) : Phase (Option Byte) Output where
  awaited := some slaveMagic
  poll := constant masterMagic
  data := t.garbageOutputs
  data_ne_nil := List.ne_nil_of_length_pos (by simp)

def piecesPhase (t : Tables) : Phase (Option Byte) Output where
  awaited := some slaveMagic
  poll := constant masterMagic
  data := t.piecesOutputs
  data_ne_nil := List.ne_nil_of_length_pos (by simp)

/-- The script of an initializer. -/
def script (t : Tables) (s : TetrisLinkInitializer) : Script (Option Byte) Output :=
  match s.state with
  | .confirmingRoles1 =>
      ⟨[], [rolesPhase, musicPhase, difficultyPhase, t.garbagePhase, t.piecesPhase]⟩
  | .selectingMusic => ⟨[], [musicPhase, difficultyPhase, t.garbagePhase, t.piecesPhase]⟩
  | .selectingDifficulty => ⟨[], [difficultyPhase, t.garbagePhase, t.piecesPhase]⟩
  | .confirmingRoles2 => ⟨[], [t.garbagePhase, t.piecesPhase]⟩
  | .sendingInitialGarbage => ⟨t.garbageOutputs.drop s.transferCounter, [t.piecesPhase]⟩
  | .confirmingRoles3 => ⟨[], [t.piecesPhase]⟩
  | .sendingPieces => ⟨t.piecesOutputs.drop s.transferCounter, []⟩

/-- The initializer has these tables, and its counter is in range. -/
structure Valid (t : Tables) (s : TetrisLinkInitializer) : Prop where
  garbage : s.initialGarbage = t.garbage
  pieces : s.pieces = t.pieces
  sendingGarbage : s.state = .sendingInitialGarbage → s.transferCounter < 100
  sendingPieces : s.state = .sendingPieces → s.transferCounter ≤ 256

end Tables

variable {t : Tables} {s : TetrisLinkInitializer}

/-- A call of `data_handler` is a call of the script. -/
inductive Simulates (t : Tables) (s : TetrisLinkInitializer) (data : Option Byte) :
    Option (Output × Script (Option Byte) Output) → Prop
  | over {s' : TetrisLinkInitializer} : s.dataHandler data = some (s', none) →
      Simulates t s data none
  | sends {s' : TetrisLinkInitializer} {toSend : Byte} :
      s.dataHandler data = some (s', some toSend) → t.Valid s' →
      Simulates t s data (some (⟨source s.state s'.state, toSend⟩, t.script s'))

theorem Simulates.of_eq {s' : TetrisLinkInitializer} {data : Option Byte} {toSend : Byte}
    (hcall : s.dataHandler data = some (s', some toSend)) (hvalid : t.Valid s')
    (hstep : step (t.script s) data = some (⟨source s.state s'.state, toSend⟩, t.script s')) :
    Simulates t s data (step (t.script s) data) :=
  hstep ▸ .sends hcall hvalid

/-- A state in which a poll is repeated. -/
theorem Simulates.of_poll {data : Option Byte} {ph : Phase (Option Byte) Output}
    {phases : List (Phase (Option Byte) Output)} {toSend : Byte} (h : t.Valid s)
    (hscript : t.script s = ⟨[], ph :: phases⟩) (hdata : data ≠ ph.awaited)
    (hpoll : ph.poll = ⟨source s.state s.state, toSend⟩)
    (hcall : s.dataHandler data = some ({ s with lastByteReceived := data }, some toSend)) :
    Simulates t s data (step (t.script s) data) := by
  refine .of_eq hcall ⟨h.garbage, h.pieces, h.sendingGarbage, h.sendingPieces⟩ ?_
  have hsame : t.script { s with lastByteReceived := data } = t.script s := rfl
  rw [hsame, hscript, step, if_neg hdata, hpoll]

/-- The next byte of a table is what the rest of its block begins with. -/
theorem getElem?_table {table : List Byte} {counter : Nat} (h : counter < table.length)
    (src : Source) :
    ∃ b, table[counter]? = some b ∧ (table.map (Output.mk src)).drop counter =
      ⟨src, b⟩ :: (table.map (Output.mk src)).drop (counter + 1) := by
  refine ⟨table[counter], List.getElem?_eq_getElem h, ?_⟩
  apply drop_of_getElem?
  simp [h]

theorem getElem?_garbage (t : Tables) {counter : Nat} (h : counter < 100) :
    ∃ b, t.garbage[counter]? = some b ∧
      t.garbageOutputs.drop counter =
        ⟨.initialGarbage, b⟩ :: t.garbageOutputs.drop (counter + 1) :=
  getElem?_table (t.length_garbage ▸ h) .initialGarbage

theorem getElem?_pieces (t : Tables) {counter : Nat} (h : counter < 256) :
    ∃ b, t.pieces[counter]? = some b ∧
      t.piecesOutputs.drop counter = ⟨.pieces, b⟩ :: t.piecesOutputs.drop (counter + 1) :=
  getElem?_table (t.length_pieces ▸ h) .pieces

/-- By cases on the state: it polls, goes on to the next state or sends the next byte of
its block. -/
theorem simulates (h : t.Valid s) (data : Option Byte) :
    Simulates t s data (step (t.script s) data) := by
  obtain ⟨state, counter, last, garbage, pieces⟩ := s
  have hvalid := h
  obtain ⟨rfl, rfl, hgarbage, hpieces⟩ := h
  cases state with
  | confirmingRoles1 =>
      by_cases hdata : data = some slaveMagic
      · subst hdata
        have hcall : dataHandler ⟨.confirmingRoles1, counter, last, t.garbage, t.pieces⟩
            (some slaveMagic) = some (⟨.selectingMusic, counter, some slaveMagic, t.garbage,
              t.pieces⟩, some musicAMagic) := rfl
        exact .of_eq hcall ⟨rfl, rfl, by simp, by simp⟩ rfl
      · exact .of_poll hvalid rfl hdata rfl (by simp [dataHandler, hdata])
  | selectingMusic =>
      by_cases hdata : data = some waitingForMusicMagic
      · subst hdata
        have hcall : dataHandler ⟨.selectingMusic, counter, last, t.garbage, t.pieces⟩
            (some waitingForMusicMagic) = some (⟨.selectingDifficulty, counter,
              some waitingForMusicMagic, t.garbage, t.pieces⟩,
              some confirmMusicSelectionMagic) := rfl
        exact .of_eq hcall ⟨rfl, rfl, by simp, by simp⟩ rfl
      · exact .of_poll hvalid rfl hdata rfl (by simp [dataHandler, selectMusic, hdata])
  | selectingDifficulty =>
      by_cases hdata : data = some 0
      · subst hdata
        have hcall : dataHandler ⟨.selectingDifficulty, counter, last, t.garbage, t.pieces⟩
            (some 0) = some (⟨.confirmingRoles2, counter, some 0, t.garbage, t.pieces⟩,
              some confirmDifficultySelectionMagic) := rfl
        exact .of_eq hcall ⟨rfl, rfl, by simp, by simp⟩ rfl
      · exact .of_poll hvalid rfl hdata rfl (by simp [dataHandler, hdata])
  | confirmingRoles2 =>
      by_cases hdata : data = some slaveMagic
      · subst hdata
        obtain ⟨b, hb, hdrop⟩ := getElem?_garbage t (Nat.zero_lt_succ 99)
        have hcall : dataHandler ⟨.confirmingRoles2, counter, last, t.garbage, t.pieces⟩
            (some slaveMagic) = some (⟨.sendingInitialGarbage, 1, some slaveMagic, t.garbage,
              t.pieces⟩, some b) := by
          simp [dataHandler, hb]
        refine .of_eq hcall ⟨rfl, rfl, by simp, by simp⟩ ?_
        exact step_awaited _ hdrop
      · exact .of_poll hvalid rfl hdata rfl (by simp [dataHandler, hdata])
  | sendingInitialGarbage =>
      obtain ⟨b, hb, hdrop⟩ := getElem?_garbage t (hgarbage rfl)
      by_cases hlast : counter + 1 = t.garbage.length
      · have hcall : dataHandler ⟨.sendingInitialGarbage, counter, last, t.garbage, t.pieces⟩
            data = some (⟨.confirmingRoles3, counter + 1, data, t.garbage, t.pieces⟩,
              some b) := by
          simp [dataHandler, hb, hlast]
        refine .of_eq hcall ⟨rfl, rfl, by simp, by simp⟩ ?_
        have hover : t.garbageOutputs.drop (counter + 1) = [] := by
          simp [hlast, t.length_garbage]
        simp [Tables.script, hdrop, hover, step, source]
      · have hcall : dataHandler ⟨.sendingInitialGarbage, counter, last, t.garbage, t.pieces⟩
            data = some (⟨.sendingInitialGarbage, counter + 1, data, t.garbage, t.pieces⟩,
              some b) := by
          simp [dataHandler, hb, hlast]
        have hcounter := hgarbage rfl
        have hnext : counter + 1 < 100 := by
          have := t.length_garbage
          simp only at hcounter
          omega
        refine .of_eq hcall ⟨rfl, rfl, fun _ => hnext, by simp⟩ ?_
        simp [Tables.script, hdrop, step, source]
  | confirmingRoles3 =>
      by_cases hdata : data = some slaveMagic
      · subst hdata
        obtain ⟨b, hb, hdrop⟩ := getElem?_pieces t (Nat.zero_lt_succ 255)
        have hcall : dataHandler ⟨.confirmingRoles3, counter, last, t.garbage, t.pieces⟩
            (some slaveMagic) = some (⟨.sendingPieces, 1, some slaveMagic, t.garbage,
              t.pieces⟩, some b) := by
          simp [dataHandler, hb]
        refine .of_eq hcall ⟨rfl, rfl, by simp, by simp⟩ ?_
        exact step_awaited _ hdrop
      · exact .of_poll hvalid rfl hdata rfl (by simp [dataHandler, hdata])
  | sendingPieces =>
      by_cases hlast : counter = 256
      · have hcall : dataHandler ⟨.sendingPieces, counter, last, t.garbage, t.pieces⟩ data =
            some (⟨.sendingPieces, counter, data, t.garbage, t.pieces⟩, none) := by
          simp [dataHandler, hlast, t.length_pieces]
        have hover : step (t.script ⟨.sendingPieces, counter, last, t.garbage, t.pieces⟩) data =
            none := by
          have hnil : t.piecesOutputs.drop 256 = [] := List.drop_of_length_le (by simp)
          simp [Tables.script, hlast, hnil, step]
        rw [hover]
        exact .over hcall
      · have hcounter := hpieces rfl
        have hlt : counter < 256 := by
          simp only at hcounter
          omega
        obtain ⟨b, hb, hdrop⟩ := getElem?_pieces t hlt
        have hcall : dataHandler ⟨.sendingPieces, counter, last, t.garbage, t.pieces⟩ data =
            some (⟨.sendingPieces, counter + 1, data, t.garbage, t.pieces⟩, some b) := by
          simp [dataHandler, hb, hlast, t.length_pieces]
        refine .of_eq hcall ⟨rfl, rfl, by simp, fun _ => hlt⟩ ?_
        simp [Tables.script, hdrop, step, source]

/-- The calls of `data_handler` are the calls of the script, and none raises. -/
theorem converse_eq (h : t.Valid s) (inputs : List (Option Byte)) :
    converse s inputs = some (exchanges (t.script s) inputs) := by
  induction inputs generalizing s with
  | nil => rfl
  | cons data inputs ih =>
      rw [converse, exchanges]
      have hsimulates := simulates h data
      cases hstep : step (t.script s) data with
      | none =>
          rw [hstep] at hsimulates
          obtain ⟨hcall⟩ := hsimulates
          simp [hcall]
      | some x =>
          rw [hstep] at hsimulates
          cases hsimulates with
          | sends hcall hvalid => simp [hcall, ih hvalid]

/-! ## Replies -/

/-- The replies after the first `b`. -/
def afterFirst (b : Byte) (replies : List Byte) : List Byte := (replies.dropWhile (· ≠ b)).drop 1

/-- The replies from the one to the byte that confirms the difficulty. -/
def difficultyReplies (replies : List Byte) : List Byte :=
  afterFirst 0 (afterFirst waitingForMusicMagic (afterFirst slaveMagic replies))

/-- The replies from the one to the first byte of garbage. -/
def garbageReplies (replies : List Byte) : List Byte :=
  afterFirst slaveMagic (difficultyReplies replies)

/-- The replies from the one to the last byte of garbage. -/
def piecesReplies (replies : List Byte) : List Byte := (garbageReplies replies).drop 99

theorem piecesReplies_eq (replies : List Byte) :
    piecesReplies replies = ((difficultyReplies replies).dropWhile (· ≠ slaveMagic)).drop 100 := by
  rw [piecesReplies, garbageReplies, afterFirst, List.drop_drop]

section Phases

variable (ph : Phase (Option Byte) Output) {b : Byte} {o : Output}

theorem exchanges_replies (hawaited : ph.awaited = some b)
    (phases : List (Phase (Option Byte) Output)) (replies : List Byte) :
    exchanges ⟨[], ph :: phases⟩ (replies.map some) =
      let waiting := replies.takeWhile (· ≠ b)
      let answered := replies.dropWhile (· ≠ b)
      let rest := exchanges ⟨[], phases⟩ ((answered.drop ph.data.length).map some)
      (waiting.map (fun r => (some r, ph.poll)) ++ (answered.map some).zip ph.data ++ rest.1,
        rest.2) := by
  rw [exchanges_phase, hawaited]
  simp [List.takeWhile_map, List.dropWhile_map, Function.comp_def, List.map_drop]

/-- A phase that sends a single byte. -/
theorem exchanges_menu (hawaited : ph.awaited = some b) (hdata : ph.data = [o])
    (phases : List (Phase (Option Byte) Output)) (replies : List Byte) :
    ∃ calls : List Call, (∀ c ∈ calls, c.2 = ph.poll ∨ c.2 = o) ∧
      (afterFirst b replies ≠ [] → calls.getLast?.map Prod.snd = some o) ∧
      exchanges ⟨[], ph :: phases⟩ (replies.map some) =
        (calls ++ (exchanges ⟨[], phases⟩ ((afterFirst b replies).map some)).1,
          (exchanges ⟨[], phases⟩ ((afterFirst b replies).map some)).2) := by
  refine ⟨(replies.takeWhile (· ≠ b)).map (fun r => (some r, ph.poll)) ++
    ((replies.dropWhile (· ≠ b)).map some).zip [o], fun c hc => ?_, fun hne => ?_, ?_⟩
  · rcases List.mem_append.mp hc with hc | hc
    · obtain ⟨r, _, rfl⟩ := List.mem_map.mp hc
      exact .inl rfl
    · exact .inr (List.mem_singleton.mp (List.of_mem_zip hc).2)
  · obtain ⟨r, rest, hanswered⟩ : ∃ r rest, replies.dropWhile (· ≠ b) = r :: rest := by
      refine List.exists_cons_of_ne_nil fun hnil => hne ?_
      rw [afterFirst, hnil, List.drop_nil]
    rw [hanswered]
    simp
  · rw [exchanges_replies ph hawaited, hdata]
    rfl

end Phases

/-- The menus: the last byte sent before the replies `difficultyReplies` is the
confirmation of the difficulty. -/
theorem exchanges_menus (t : Tables) (replies : List Byte) :
    ∃ calls : List Call, (∀ c ∈ calls, c.2.source = .constant) ∧
      (difficultyReplies replies ≠ [] →
        calls.getLast?.map Prod.snd = some (constant confirmDifficultySelectionMagic)) ∧
      exchanges (t.script t.initializer) (none :: replies.map some) =
        (calls ++ (exchanges ⟨[], [t.garbagePhase, t.piecesPhase]⟩
            ((difficultyReplies replies).map some)).1,
          (exchanges ⟨[], [t.garbagePhase, t.piecesPhase]⟩
            ((difficultyReplies replies).map some)).2) := by
  have hfirst : exchanges (t.script t.initializer) (none :: replies.map some) =
      ((none, constant masterMagic) :: (exchanges (t.script t.initializer) (replies.map some)).1,
        (exchanges (t.script t.initializer) (replies.map some)).2) := rfl
  obtain ⟨roles, hroles, _, hrolesEq⟩ := exchanges_menu rolesPhase rfl rfl
    [musicPhase, difficultyPhase, t.garbagePhase, t.piecesPhase] replies
  obtain ⟨music, hmusic, _, hmusicEq⟩ := exchanges_menu musicPhase rfl rfl
    [difficultyPhase, t.garbagePhase, t.piecesPhase] (afterFirst slaveMagic replies)
  obtain ⟨difficulty, hdifficulty, hlast, hdifficultyEq⟩ :=
    exchanges_menu difficultyPhase rfl rfl [t.garbagePhase, t.piecesPhase]
      (afterFirst waitingForMusicMagic (afterFirst slaveMagic replies))
  refine ⟨(none, constant masterMagic) :: roles ++ music ++ difficulty, fun c hc => ?_,
    fun hne => ?_, ?_⟩
  · simp only [List.cons_append, List.mem_cons, List.mem_append] at hc
    rcases hc with rfl | (hc | hc) | hc
    · rfl
    · rcases hroles c hc with h | h <;> rw [h] <;> rfl
    · rcases hmusic c hc with h | h <;> rw [h] <;> rfl
    · rcases hdifficulty c hc with h | h <;> rw [h] <;> rfl
  · have hsome := hlast hne
    cases hdifficultyLast : difficulty.getLast? with
    | none => simp [hdifficultyLast] at hsome
    | some c =>
        rw [hdifficultyLast] at hsome
        rw [List.getLast?_append, hdifficultyLast]
        exact hsome
  · have hscript : t.script t.initializer =
        ⟨[], [rolesPhase, musicPhase, difficultyPhase, t.garbagePhase, t.piecesPhase]⟩ := rfl
    rw [hfirst, hscript, hrolesEq, hmusicEq, hdifficultyEq]
    simp [difficultyReplies]

/-- The calls of a phase of a block. -/
def polls (replies : List Byte) : List Call :=
  (replies.takeWhile (· ≠ slaveMagic)).map fun r => (some r, constant masterMagic)

def block (replies : List Byte) (outputs : List Output) : List Call :=
  ((replies.dropWhile (· ≠ slaveMagic)).map some).zip outputs

theorem exchanges_eq (t : Tables) (replies : List Byte) :
    ∃ menus : List Call, (∀ c ∈ menus, c.2.source = .constant) ∧
      (difficultyReplies replies ≠ [] →
        menus.getLast?.map Prod.snd = some (constant confirmDifficultySelectionMagic)) ∧
      exchanges (t.script t.initializer) (none :: replies.map some) =
        (menus ++ polls (difficultyReplies replies) ++
          block (difficultyReplies replies) t.garbageOutputs ++
          polls (piecesReplies replies) ++ block (piecesReplies replies) t.piecesOutputs,
          decide (256 < ((piecesReplies replies).dropWhile (· ≠ slaveMagic)).length)) := by
  obtain ⟨menus, hmenus, hlast, heq⟩ := exchanges_menus t replies
  refine ⟨menus, hmenus, hlast, ?_⟩
  have hgarbage := exchanges_replies t.garbagePhase rfl [t.piecesPhase] (difficultyReplies replies)
  have hpieces := exchanges_replies t.piecesPhase rfl [] (piecesReplies replies)
  have hdrop : ((difficultyReplies replies).dropWhile (· ≠ slaveMagic)).drop
      t.garbagePhase.data.length = piecesReplies replies := by
    have hlength : t.garbagePhase.data.length = 100 := t.length_garbageOutputs
    rw [hlength, piecesReplies_eq]
  have hover : decide ((((piecesReplies replies).dropWhile (· ≠ slaveMagic)).drop
      t.piecesPhase.data.length).map some ≠ []) =
        decide (256 < ((piecesReplies replies).dropWhile (· ≠ slaveMagic)).length) := by
    have hlength : t.piecesPhase.data.length = 256 := t.length_piecesOutputs
    rw [decide_eq_decide, hlength, ne_eq, List.map_eq_nil_iff, List.drop_eq_nil_iff, Nat.not_le]
  rw [heq, hgarbage]
  simp only [hdrop, hpieces, exchanges_over, hover, List.append_nil]
  simp only [← List.append_assoc]
  rfl

/-! ## Announcements -/

/-- The first byte of a block is returned on the reply 0x55 to a byte 0x29 that is not
from a table. -/
def Announced (src : Source) (calls : List Call) : Prop :=
  ∀ c, calls.find? (isOf src) = some c →
    c.1 = some slaveMagic ∧
      (calls.takeWhile fun c => !isOf src c).getLast?.map Prod.snd = some (constant masterMagic)

section Announced

variable {src : Source} {before after : List Call} {c : Call}

theorem announced_of_none (h : ∀ c ∈ before, isOf src c = false) : Announced src before := by
  intro c hc
  have hnone : before.find? (isOf src) = none := List.find?_eq_none.mpr fun x hx => by simp [h x hx]
  rw [hnone] at hc
  cases hc

theorem announced_iff_of_first (hbefore : ∀ c ∈ before, isOf src c = false)
    (hc : isOf src c = true) :
    Announced src (before ++ c :: after) ↔
      c.1 = some slaveMagic ∧ before.getLast?.map Prod.snd = some (constant masterMagic) := by
  have hnone : before.find? (isOf src) = none :=
    List.find?_eq_none.mpr fun x hx => by simp [hbefore x hx]
  have hfind : (before ++ c :: after).find? (isOf src) = some c := by
    simp [List.find?_append, hnone, hc]
  have htake : (before ++ c :: after).takeWhile (fun c => !isOf src c) = before := by
    rw [List.takeWhile_append_of_pos fun x hx => by simp [hbefore x hx]]
    simp [hc]
  simp [Announced, hfind, htake]

theorem isOf_polls (hsrc : src ≠ .constant) {replies : List Byte} :
    ∀ c ∈ polls replies, isOf src c = false := by
  intro c hc
  obtain ⟨r, _, rfl⟩ := List.mem_map.mp hc
  simp [isOf, constant, hsrc.symm]

/-- A block is announced unless the first reply to be judged is 0x55 already. -/
theorem announced_block_iff {outputs : List Output} {replies : List Byte}
    (hsrc : src ≠ .constant) (hbefore : ∀ c ∈ before, isOf src c = false)
    (hlast : replies ≠ [] → before.getLast?.map Prod.snd ≠ some (constant masterMagic))
    (houtputs : ∀ o ∈ outputs, o.source = src) (hne : outputs ≠ [])
    (hafter : ∀ c ∈ after, replies.dropWhile (· ≠ slaveMagic) = [] → isOf src c = false) :
    Announced src (before ++ polls replies ++ block replies outputs ++ after) ↔
      replies.head? ≠ some slaveMagic := by
  have hbefore' : ∀ c ∈ before ++ polls replies, isOf src c = false :=
    fun c hc => (List.mem_append.mp hc).elim (hbefore c) (isOf_polls hsrc c)
  rw [block]
  cases hanswered : replies.dropWhile (· ≠ slaveMagic) with
  | nil =>
      have hnot : replies.head? ≠ some slaveMagic := by
        intro hhead
        have hmem : slaveMagic ∈ replies := List.mem_of_mem_head? hhead
        simpa using List.dropWhile_eq_nil_iff.mp hanswered slaveMagic hmem
      refine iff_of_true (announced_of_none fun c hc => ?_) hnot
      rw [List.map_nil, List.zip_nil_left, List.append_nil] at hc
      exact (List.mem_append.mp hc).elim (hbefore' c) fun hmem => hafter c hmem hanswered
  | cons r rest =>
      have hr : r = slaveMagic := by
        have hhead := List.head?_dropWhile_not (fun x => decide (x ≠ slaveMagic)) replies
        rw [hanswered] at hhead
        simpa using hhead
      obtain ⟨o, outputs, rfl⟩ := List.exists_cons_of_ne_nil hne
      have ho : isOf src (some r, o) = true := by
        simp [isOf, houtputs o List.mem_cons_self]
      rw [List.map_cons, List.zip_cons_cons, List.append_assoc, List.cons_append,
        announced_iff_of_first hbefore' ho, List.getLast?_append, polls, List.getLast?_map]
      cases replies with
      | nil => cases hanswered
      | cons x replies =>
          by_cases hx : x = slaveMagic
          · have hnot := hlast (List.cons_ne_nil x replies)
            simpa [hx, hr] using hnot
          · simp [hx, hr, List.getLast?_cons]

end Announced

/-! ## Blocks -/

/-- Each block is sent once, contiguously and in order, the garbage first, and the call
after the reply to the last piece returns `None`. -/
structure Ordered (t : Tables) (replies : List Byte) (calls : List Call) (done : Bool) :
    Prop where
  responses : calls.map Prod.fst <+: none :: replies.map some
  garbage : bytesOf .initialGarbage calls <+: t.garbage
  pieces : bytesOf .pieces calls <+: t.pieces
  contiguous : ∃ before between, calls = before ++ calls.filter (isOf .initialGarbage) ++
    between ++ calls.filter (isOf .pieces)
  garbageFirst : bytesOf .pieces calls ≠ [] → bytesOf .initialGarbage calls = t.garbage
  done_iff : done = true ↔ bytesOf .pieces calls = t.pieces ∧ calls.length ≤ replies.length

/-- Moreover, each block begins with a role exchange. -/
structure Framed (t : Tables) (replies : List Byte) (calls : List Call) (done : Bool) : Prop
    extends Ordered t replies calls done where
  garbageAnnounced : Announced .initialGarbage calls
  piecesAnnounced : Announced .pieces calls

theorem bytes_block (replies : List Byte) (src : Source) (l : List Byte) :
    (block replies (l.map (Output.mk src))).map (fun c => c.2.byte) =
      l.take (replies.dropWhile (· ≠ slaveMagic)).length := by
  rw [block]
  generalize replies.dropWhile (· ≠ slaveMagic) = answered
  induction l generalizing answered with
  | nil => simp
  | cons b l ih =>
      cases answered with
      | nil => rfl
      | cons r answered => simpa using ih answered

theorem source_of_mem (src : Source) (l : List Byte) :
    ∀ o ∈ l.map (Output.mk src), o.source = src := by
  intro o ho
  obtain ⟨b, _, rfl⟩ := List.mem_map.mp ho
  rfl

theorem isOf_block (replies : List Byte) (src : Source) (l : List Byte) :
    ∀ c ∈ block replies (l.map (Output.mk src)), c.2.source = src :=
  fun _ hc => source_of_mem src l _ (List.of_mem_zip hc).2

section Blocks

variable {before between garbage pieces : List Call}

/-- The calls by their sources. -/
structure Divided (before garbage between pieces : List Call) : Prop where
  before : ∀ c ∈ before, c.2.source = .constant
  garbage : ∀ c ∈ garbage, c.2.source = .initialGarbage
  between : ∀ c ∈ between, c.2.source = .constant
  pieces : ∀ c ∈ pieces, c.2.source = .pieces

theorem filter_of_source {src src' : Source} {calls : List Call}
    (h : ∀ c ∈ calls, c.2.source = src') :
    calls.filter (isOf src) = if src = src' then calls else [] := by
  split
  · rename_i heq
    exact List.filter_eq_self.mpr fun c hc => by simp [isOf, h c hc, heq]
  · rename_i hne
    exact List.filter_eq_nil_iff.mpr fun c hc => by simp [isOf, h c hc, Ne.symm hne]

theorem Divided.filter_garbage (h : Divided before garbage between pieces) :
    (before ++ garbage ++ between ++ pieces).filter (isOf .initialGarbage) = garbage := by
  simp [filter_of_source h.before, filter_of_source h.garbage, filter_of_source h.between,
    filter_of_source h.pieces]

theorem Divided.filter_pieces (h : Divided before garbage between pieces) :
    (before ++ garbage ++ between ++ pieces).filter (isOf .pieces) = pieces := by
  simp [filter_of_source h.before, filter_of_source h.garbage, filter_of_source h.between,
    filter_of_source h.pieces]

theorem isOf_of_source {src src' : Source} {calls : List Call} (hne : src ≠ src')
    (h : ∀ c ∈ calls, c.2.source = src') : ∀ c ∈ calls, isOf src c = false :=
  fun c hc => by simp [isOf, h c hc, hne.symm]

end Blocks

theorem source_polls (replies : List Byte) : ∀ c ∈ polls replies, c.2.source = .constant := by
  intro c hc
  obtain ⟨r, _, rfl⟩ := List.mem_map.mp hc
  rfl

theorem valid_initializer (t : Tables) : t.Valid t.initializer :=
  ⟨rfl, rfl, by simp [Tables.initializer], by simp [Tables.initializer]⟩

section Conversation

variable {menus calls : List Call} {done : Bool}

theorem divided (t : Tables) (replies : List Byte) (hmenus : ∀ c ∈ menus, c.2.source = .constant) :
    Divided (menus ++ polls (difficultyReplies replies))
      (block (difficultyReplies replies) t.garbageOutputs) (polls (piecesReplies replies))
      (block (piecesReplies replies) t.piecesOutputs) where
  before c hc := (List.mem_append.mp hc).elim (hmenus c) (source_polls _ c)
  garbage := isOf_block _ _ _
  between := source_polls _
  pieces := isOf_block _ _ _

theorem ordered_of_eq (t : Tables) (replies : List Byte)
    (hmenus : ∀ c ∈ menus, c.2.source = .constant)
    (hcalls : calls = menus ++ polls (difficultyReplies replies) ++
      block (difficultyReplies replies) t.garbageOutputs ++ polls (piecesReplies replies) ++
      block (piecesReplies replies) t.piecesOutputs)
    (hdone : done = decide (256 < ((piecesReplies replies).dropWhile (· ≠ slaveMagic)).length))
    (hresponses : calls.map Prod.fst <+: none :: replies.map some)
    (hover : done = true ↔ calls.length < (none :: replies.map some).length) :
    Ordered t replies calls done := by
  have hdivided := divided t replies hmenus
  have hgarbage : bytesOf .initialGarbage calls =
      t.garbage.take ((difficultyReplies replies).dropWhile (· ≠ slaveMagic)).length := by
    rw [bytesOf, hcalls, hdivided.filter_garbage, Tables.garbageOutputs, bytes_block]
  have hpieces : bytesOf .pieces calls =
      t.pieces.take ((piecesReplies replies).dropWhile (· ≠ slaveMagic)).length := by
    rw [bytesOf, hcalls, hdivided.filter_pieces, Tables.piecesOutputs, bytes_block]
  constructor
  · exact hresponses
  · rw [hgarbage]
    exact List.take_prefix _ _
  · rw [hpieces]
    exact List.take_prefix _ _
  · refine ⟨menus ++ polls (difficultyReplies replies), polls (piecesReplies replies), ?_⟩
    rw [hcalls, hdivided.filter_garbage, hdivided.filter_pieces]
  · intro hne
    have hreached : piecesReplies replies ≠ [] := by
      intro hnil
      rw [hpieces, hnil] at hne
      exact hne rfl
    rw [piecesReplies_eq, ne_eq, List.drop_eq_nil_iff, Nat.not_le] at hreached
    rw [hgarbage]
    apply List.take_of_length_le
    rw [t.length_garbage]
    omega
  · rw [List.length_cons, List.length_map, Nat.lt_succ_iff] at hover
    refine ⟨fun h => ⟨?_, hover.mp h⟩, fun h => hover.mpr h.2⟩
    rw [hpieces]
    apply List.take_of_length_le
    rw [hdone, decide_eq_true_eq] at h
    rw [t.length_pieces]
    omega

/-- The byte before the polls of the garbage is no poll. -/
theorem garbage_announced_iff (t : Tables) (replies : List Byte)
    (hmenus : ∀ c ∈ menus, c.2.source = .constant)
    (hlast : difficultyReplies replies ≠ [] →
      menus.getLast?.map Prod.snd = some (constant confirmDifficultySelectionMagic))
    (hcalls : calls = menus ++ polls (difficultyReplies replies) ++
      block (difficultyReplies replies) t.garbageOutputs ++ polls (piecesReplies replies) ++
      block (piecesReplies replies) t.piecesOutputs) :
    Announced .initialGarbage calls ↔
      (difficultyReplies replies).head? ≠ some slaveMagic := by
  have hdivided := divided t replies hmenus
  rw [hcalls, List.append_assoc _ (polls (piecesReplies replies))]
  apply announced_block_iff
  · simp
  · exact isOf_of_source (by simp) hmenus
  · intro hne
    rw [hlast hne]
    decide
  · exact source_of_mem _ _
  · exact List.ne_nil_of_length_pos (by simp)
  · intro c hc _
    rcases List.mem_append.mp hc with hc | hc
    · exact isOf_of_source (by simp) hdivided.between c hc
    · exact isOf_of_source (by simp) hdivided.pieces c hc

/-- The byte before the polls of the pieces is the last byte of garbage. -/
theorem pieces_announced_iff (t : Tables) (replies : List Byte)
    (hmenus : ∀ c ∈ menus, c.2.source = .constant)
    (hcalls : calls = menus ++ polls (difficultyReplies replies) ++
      block (difficultyReplies replies) t.garbageOutputs ++ polls (piecesReplies replies) ++
      block (piecesReplies replies) t.piecesOutputs) :
    Announced .pieces calls ↔ (piecesReplies replies).head? ≠ some slaveMagic := by
  have hdivided := divided t replies hmenus
  have happend : calls = menus ++ polls (difficultyReplies replies) ++
      block (difficultyReplies replies) t.garbageOutputs ++ polls (piecesReplies replies) ++
      block (piecesReplies replies) t.piecesOutputs ++ [] := by
    rw [hcalls, List.append_nil]
  rw [happend]
  apply announced_block_iff
  · simp
  · intro c hc
    rcases List.mem_append.mp hc with hc | hc
    · exact isOf_of_source (by simp) hdivided.before c hc
    · exact isOf_of_source (by simp) hdivided.garbage c hc
  · intro hne
    rw [piecesReplies_eq, ne_eq, List.drop_eq_nil_iff, Nat.not_le] at hne
    have hsent : block (difficultyReplies replies) t.garbageOutputs ≠ [] := by
      apply List.ne_nil_of_length_pos
      rw [block, List.length_zip, List.length_map, t.length_garbageOutputs]
      omega
    have hsource := hdivided.garbage _ (List.getLast_mem hsent)
    rw [List.getLast?_append, List.getLast?_eq_some_getLast hsent, Option.some_or,
      Option.map_some, ne_eq, Option.some.injEq]
    intro heq
    rw [heq] at hsource
    cases hsource
  · exact source_of_mem _ _
  · exact List.ne_nil_of_length_pos (by simp)
  · intro c hc
    cases hc

end Conversation

/-- Every stream of replies: how `data_handler` is called, and when the blocks are announced. -/
theorem converse_initializer (t : Tables) (replies : List Byte) :
    ∃ calls done, converse t.initializer (none :: replies.map some) = some (calls, done) ∧
      Ordered t replies calls done ∧
      (Announced .initialGarbage calls ↔
        (difficultyReplies replies).head? ≠ some slaveMagic) ∧
      (Announced .pieces calls ↔ (piecesReplies replies).head? ≠ some slaveMagic) := by
  obtain ⟨menus, hmenus, hlast, heq⟩ := exchanges_eq t replies
  have hresponses := inputs_exchanges (t.script t.initializer) (none :: replies.map some)
  have hover := over_iff (t.script t.initializer) (none :: replies.map some)
  rw [heq] at hresponses hover
  refine ⟨_, _, (converse_eq (valid_initializer t) _).trans (congrArg some heq), ?_, ?_, ?_⟩
  · exact ordered_of_eq t replies hmenus rfl rfl hresponses hover
  · exact garbage_announced_iff t replies hmenus hlast rfl
  · exact pieces_announced_iff t replies hmenus rfl

/-- Every stream of replies is answered as it should be, if and only if neither the reply to
the byte that confirms the difficulty nor the one to the last byte of garbage is 0x55. -/
theorem framed_iff (t : Tables) (replies : List Byte) :
    (∃ calls done, converse t.initializer (none :: replies.map some) = some (calls, done) ∧
        Framed t replies calls done) ↔
      (difficultyReplies replies).head? ≠ some slaveMagic ∧
        (piecesReplies replies).head? ≠ some slaveMagic := by
  obtain ⟨calls, done, hconverse, hordered, hgarbage, hpieces⟩ := converse_initializer t replies
  rw [← hgarbage, ← hpieces, hconverse]
  constructor
  · rintro ⟨_, _, ⟨⟩, hframed⟩
    exact ⟨hframed.garbageAnnounced, hframed.piecesAnnounced⟩
  · rintro ⟨hgarbage, hpieces⟩
    exact ⟨calls, done, rfl, hordered, hgarbage, hpieces⟩

/-- The slave confirms the difficulty with 0x55, and the garbage follows at once. -/
theorem garbage_unannounced :
    ¬∃ calls done, converse (tables fun _ => ⟨false, 0, 0⟩).initializer
        (none :: [slaveMagic, waitingForMusicMagic, 0, slaveMagic].map some) =
          some (calls, done) ∧
      Framed (tables fun _ => ⟨false, 0, 0⟩)
        [slaveMagic, waitingForMusicMagic, 0, slaveMagic] calls done := by
  rintro ⟨calls, done, heq, hframed⟩
  obtain ⟨calls', done', heq', _, hgarbage, _⟩ := converse_initializer
    (tables fun _ => ⟨false, 0, 0⟩) [slaveMagic, waitingForMusicMagic, 0, slaveMagic]
  obtain ⟨rfl, rfl⟩ : calls = calls' ∧ done = done' := by
    simpa using heq.symm.trans heq'
  exact hgarbage.mp hframed.garbageAnnounced rfl

end GbPlay.Tools.Tetris.Framing
