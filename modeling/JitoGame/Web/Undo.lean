import JitoGame.Web.Preview

namespace JitoGame.Web

open Tallies Traces

variable {g g' : GameState} {v : View} {bets : Bets} {chip : ℤ} {key : String}

namespace GameState

end GameState

open GameState

end JitoGame.Web
