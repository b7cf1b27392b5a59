import JitoGame.AdminErrors
import JitoGame.AdminReplays
import JitoGame.Audit
import JitoGame.Auth.Admission
import JitoGame.Auth.Conflicts
import JitoGame.Auth.Guards
import JitoGame.Auth.Lockout
import JitoGame.Auth.PasswordChange
import JitoGame.Auth.RateLimits
import JitoGame.Auth.StatusCache
import JitoGame.Auth.Validity
import JitoGame.Balances
import JitoGame.BetLedger
import JitoGame.Convergence
import JitoGame.Deadline
import JitoGame.Histories
import JitoGame.KeyReuse
import JitoGame.Linearization
import JitoGame.LockOrder
import JitoGame.LostReplies
import JitoGame.MutationTwins
import JitoGame.Numbering
import JitoGame.Numbers
import JitoGame.Pagination
import JitoGame.Reconciliation
import JitoGame.RunningBalance
import JitoGame.SerializerRoundTrip
import JitoGame.Skew
import JitoGame.Snapshots
import JitoGame.Transport
import JitoGame.Treasury
import JitoGame.Twins
import JitoGame.Web.Conservation
import JitoGame.Web.ErrorTransport
import JitoGame.Web.LatestWins
import JitoGame.Web.RandomPick
import JitoGame.Web.LogoutWindow
import JitoGame.Web.Reveal
import JitoGame.Web.SessionService
import JitoGame.Web.Settlement
import JitoGame.Web.Turning
import JitoGame.Web.Undo
import JitoGame.Web.WheelEngine
