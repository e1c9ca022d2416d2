import GbPlay.Library.Runs
import GbPlay.Library.OrderedMap
import GbPlay.Library.Dialogue
import GbPlay.Library.Rounds
import GbPlay.Library.CString
import GbPlay.Library.Operations
import GbPlay.Library.Histories
import GbPlay.Library.Mutex
import GbPlay.Library.RingBuffer
import GbPlay.Library.Calls
import GbPlay.Library.Ongoing
import GbPlay.Library.Memory
import GbPlay.Library.Strtol
import GbPlay.Library.Phases
import GbPlay.Library.Layout
import GbPlay.Library.Machines
import GbPlay.Library.Sampling
import GbPlay.Library.Relays
import GbPlay.Library.Sessions
import GbPlay.Library.Exchanges
import GbPlay.Library.Atomicity
import GbPlay.Arduino.TransferByte
import GbPlay.Arduino.GbToSerial
import GbPlay.Link.Model
import GbPlay.Link.LockStep
import GbPlay.Link.GameBoy
import GbPlay.Link.Connection
import GbPlay.Server.Client
import GbPlay.Server.ExchangeByte
import GbPlay.Server.GameSession
import GbPlay.Server.Lobby
import GbPlay.Server.LobbyInvariant
import GbPlay.Server.Script
import GbPlay.Server.Transcripts
import GbPlay.Tools.PingPong
import GbPlay.Tools.Tetris
import GbPlay.Tools.TetrisFraming
import GbPlay.Tools.Bridge.Server
import GbPlay.Tools.Bridge.Protocols
import GbPlay.Tools.Bridge.Cradle
import GbPlay.Tools.Bridge.Session
import GbPlay.Tools.Bridge.Progress
import GbPlay.Tools.Bridge.Pokemon
import GbPlay.Tools.TetrisGenerators
import GbPlay.Tools.PokemonData.Pokemon
import GbPlay.Tools.PokemonData.Trainer
import GbPlay.Tools.MockTrade.Trader
import GbPlay.Tools.MockTrade.Party
import GbPlay.Tools.MockTrade.Selection
import GbPlay.Tools.Bgb.Packet
import GbPlay.Tools.Bgb.Server
import GbPlay.Tools.Bgb.Running
import GbPlay.Tools.Bgb.Timestamps
import GbPlay.Tools.Bgb.Framing
import GbPlay.Tools.Bgb.Replies
import GbPlay.Tools.BgbProxy
import GbPlay.Tools.BgbSerialLink
import GbPlay.Tools.SerialLink
import GbPlay.Tools.SerialServer
import GbPlay.Tools.Bgb.Handled
import GbPlay.Tools.MockTrade.Trading
import GbPlay.Server.Relay
import GbPlay.Server.Tetris.Data
import GbPlay.Server.Tetris.Handlers
import GbPlay.Server.Tetris.Sync
import GbPlay.Server.Tetris.Ended
import GbPlay.Server.Tetris.Outcome
import GbPlay.Server.Tetris.Initialization
import GbPlay.Server.Tetris.Wire
import GbPlay.Server.Tetris.Match
import GbPlay.Server.Tetris.Forwarding
import GbPlay.Server.Tetris.Renaming
import GbPlay.Server.Tetris.Effects
import GbPlay.Server.Tetris.Unanswered
import GbPlay.Server.Tetris.Silence
import GbPlay.Server.Sessions
import GbPlay.Server.Matchmaking
import GbPlay.Server.Tetris.Difficulty
import GbPlay.Esp.SavedNetworks
import GbPlay.Esp.SavedNetworksMap
import GbPlay.Esp.SavedNetworksTasks
import GbPlay.Esp.Network.History
import GbPlay.Esp.Network.Model
import GbPlay.Esp.Network.EventLoop
import GbPlay.Esp.Network.Moves
import GbPlay.Esp.Network.Lock
import GbPlay.Esp.Network.Progress
import GbPlay.Esp.Network.BlockList
import GbPlay.Esp.Network.Leaving
import GbPlay.Esp.Network.Causes
import GbPlay.Esp.Network.StaysBlocked
import GbPlay.Esp.Network.Credentials
import GbPlay.Esp.WifiScan
import GbPlay.Esp.Socket.Model
import GbPlay.Esp.Socket.Connect
import GbPlay.Esp.Socket.Timeout
import GbPlay.Esp.Socket.Transfer
import GbPlay.Esp.Socket.Ongoing
import GbPlay.Esp.ServerPort
import GbPlay.Esp.SocketManager.Model
import GbPlay.Esp.SocketManager.Relay
import GbPlay.Esp.SocketManager.Wakeup
