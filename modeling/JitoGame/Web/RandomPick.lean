import JitoGame.Web.Preview

namespace JitoGame.Web

open Tallies Traces

variable {g : GameState} {v : View} {s : Section} {key : String}

namespace GameState

end GameState

open GameState

end JitoGame.Web
