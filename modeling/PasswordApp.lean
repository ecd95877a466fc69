import PasswordApp.Library.Dict
import PasswordApp.Library.Machine
import PasswordApp.Library.RoundRobin
import PasswordApp.Library.Heap
import PasswordApp.Library.Retry
import PasswordApp.Library.Keyed
import PasswordApp.Library.Refinement
import PasswordApp.Library.Parts
import PasswordApp.Library.Past
import PasswordApp.Backend.Runtime
import PasswordApp.Backend.Utils
import PasswordApp.Backend.WordUtils
import PasswordApp.Backend.Lobby
import PasswordApp.Backend.GameLogic
import PasswordApp.Backend.Shuffle
import PasswordApp.Backend.Dealing
import PasswordApp.Backend.Validation
import PasswordApp.Backend.LobbyUtils
import PasswordApp.Backend.Transactions
import PasswordApp.Backend.Room
import PasswordApp.Backend.Server
import PasswordApp.Backend.Codes
import PasswordApp.Backend.Retries
import PasswordApp.Game.Scoring
import PasswordApp.Game.Moves
import PasswordApp.Game.Schedule
import PasswordApp.Game.Clock
import PasswordApp.Game.Words
import PasswordApp.Game.Banks
import PasswordApp.Game.Triggers
import PasswordApp.Game.History
import PasswordApp.Game.Ballots
import PasswordApp.Game.Scores
import PasswordApp.Game.Commits
import PasswordApp.Game.Finality
import PasswordApp.Game.Handoff
import PasswordApp.Game.Progress
import PasswordApp.Game.Redelivery
import PasswordApp.Game.Seating
import PasswordApp.Game.Phases
import PasswordApp.Game.Counter
import PasswordApp.Game.Arrivals
import PasswordApp.Game.Secrecy
import PasswordApp.Game.Settling
import PasswordApp.Game.Membership
import PasswordApp.Game.Verdict
import PasswordApp.Game.Closing
import PasswordApp.Game.LetterCase
import PasswordApp.Game.Rulebook
import PasswordApp.Game.Table
import PasswordApp.Game.Endgame
import PasswordApp.Game.Payouts
import PasswordApp.Game.Isolation
import PasswordApp.Game.Authorship
import PasswordApp.Game.Exceptions
import PasswordApp.Bot.PasswordBot
import PasswordApp.Bot.Answers
import PasswordApp.Bot.LegalWords
import PasswordApp.Client.GameScreen
import PasswordApp.Client.Deliveries
import PasswordApp.Client.Chat
import PasswordApp.Client.Users
import PasswordApp.Client.Turns
import PasswordApp.Client.Identity
import PasswordApp.Client.Icons
import PasswordApp.Library.Follower
import PasswordApp.Library.Ranking
import PasswordApp.Client.Children
import PasswordApp.Client.Session
import PasswordApp.Client.Standings
import PasswordApp.Client.Mirror
import PasswordApp.Bot.Judgement
import PasswordApp.Client.Table
