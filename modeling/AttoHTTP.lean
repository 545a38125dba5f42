import AttoHTTP.Library.Comp
import AttoHTTP.Library.Memory
import AttoHTTP.Library.Script
import AttoHTTP.Model.Config
import AttoHTTP.Model.Headers
import AttoHTTP.Model.JsonParam
import AttoHTTP.Model.Output
import AttoHTTP.Model.Reader
import AttoHTTP.Model.Registry
import AttoHTTP.Model.RequestLine
import AttoHTTP.Model.Router
import AttoHTTP.Model.Server
import AttoHTTP.Model.State
import AttoHTTP.Model.UrlParam
import AttoHTTP.Proof.Framing
import AttoHTTP.Proof.Output
import AttoHTTP.Proof.Parameters
import AttoHTTP.Proof.Reader
import AttoHTTP.Proof.RequestInvariant
import AttoHTTP.Proof.Response
import AttoHTTP.Proof.Routing
import AttoHTTP.Proof.Termination
import AttoHTTP.Proof.Authorization
import AttoHTTP.Proof.Delivery
import AttoHTTP.Proof.Rendering
import AttoHTTP.Proof.Lasting
import AttoHTTP.Proof.Site
import AttoHTTP.Proof.Serving
import AttoHTTP.Proof.Truncation
import AttoHTTP.Proof.Isolation
import AttoHTTP.Proof.Formatting
import AttoHTTP.Library.Base64
import AttoHTTP.Model.Base64
import AttoHTTP.Model.Esp8266
import AttoHTTP.Proof.Base64
import AttoHTTP.Proof.Connections
import AttoHTTP.Proof.ParamTokens
import AttoHTTP.Proof.Entry
import AttoHTTP.Proof.ParamSources
import AttoHTTP.Proof.ParamCalls
import AttoHTTP.Proof.FormParams
import AttoHTTP.Proof.QueryParams
import AttoHTTP.Proof.Leftovers
import AttoHTTP.Proof.ParamBounds
import AttoHTTP.Proof.JsonMachine
import AttoHTTP.Proof.Base64Text
import AttoHTTP.Proof.Base64Groups
import AttoHTTP.Proof.JsonBounds
import AttoHTTP.Proof.JsonText
import AttoHTTP.Proof.JsonFlat
import AttoHTTP.Proof.JsonArray
import AttoHTTP.Proof.FormCuts
import AttoHTTP.Proof.Levels
import AttoHTTP.Proof.QueryRouting
import AttoHTTP.Proof.RawBody
import AttoHTTP.Proof.CredentialText
import AttoHTTP.Proof.JsonQuoted
import AttoHTTP.Proof.JsonTree
import AttoHTTP.Proof.JsonNested
import AttoHTTP.Proof.Alike
import AttoHTTP.Library.HeaderBlock
import AttoHTTP.Library.EventStream
import AttoHTTP.Proof.PageFraming
import AttoHTTP.Proof.Events
import AttoHTTP.Proof.Counts
import AttoHTTP.Proof.Accepted
import AttoHTTP.Proof.RequestBounds
import AttoHTTP.Proof.Pushback
import AttoHTTP.Proof.Determinacy
import AttoHTTP.Proof.Disconnection
import AttoHTTP.Library.BlockHash
import AttoHTTP.Library.Sine
import AttoHTTP.Library.Md5
import AttoHTTP.Model.Md5
import AttoHTTP.Proof.Md5Rounds
import AttoHTTP.Proof.Md5
import AttoHTTP.Library.Steps
import AttoHTTP.Proof.Live
import AttoHTTP.Proof.EventRuns
import AttoHTTP.Proof.Authorized
import AttoHTTP.Model.UnixSockets
import AttoHTTP.Proof.UnixSockets
import AttoHTTP.Proof.Builds
