import GbPlay.Tools.Bridge.Server
import GbPlay.Tools.Tetris

/-!
# The game protocols of the bridge

`game_protocols/tetris.py` and `game_protocols/pokemon_gen1.py`.
-/

namespace GbPlay.Tools.Bridge

open GbPlay.Server.Client GbPlay.Tools.Tetris

/-! ## Tetris -/

/-- `GAME_START_MAGIC` -/
def gameStartMagic : List Byte := [0x30, 0x00, 0x02, 0x02, 0x20]

theorem dataHandler_records {link link' : TetrisLinkInitializer} {data toSend : Option Byte}
    (h : link.dataHandler data = some (link', toSend)) : link'.lastByteReceived = data := by
  obtain ⟨state, counter, last, garbage, pieces⟩ := link
  cases state <;> simp only [TetrisLinkInitializer.dataHandler, Option.bind_eq_bind] at h <;>
    grind [TetrisLinkInitializer.selectMusic]

def tetris : Protocol TetrisLinkInitializer where
  dataHandler := TetrisLinkInitializer.dataHandler
  lastByteReceived := TetrisLinkInitializer.lastByteReceived
  startSequence := gameStartMagic
  records := dataHandler_records

/-! ## Pokémon -/

structure PokemonGen1LinkInitializer where
  lastByteReceived : Option Byte := none
  deriving DecidableEq, Repr

namespace PokemonGen1LinkInitializer

def masterMagic : Byte := 0x01
def slaveMagic : Byte := 0x02

def dataHandler (_ : PokemonGen1LinkInitializer) (data : Option Byte) :
    PokemonGen1LinkInitializer × Option Byte :=
  ({ lastByteReceived := data }, if data = some slaveMagic then none else some masterMagic)

end PokemonGen1LinkInitializer

def pokemonGen1 : Protocol PokemonGen1LinkInitializer where
  dataHandler link data := some (link.dataHandler data)
  lastByteReceived := PokemonGen1LinkInitializer.lastByteReceived
  startSequence := []
  records := by
    intro link data link' toSend h
    simp only [PokemonGen1LinkInitializer.dataHandler, Option.some.injEq, Prod.mk.injEq] at h
    rw [← h.1]

end GbPlay.Tools.Bridge
