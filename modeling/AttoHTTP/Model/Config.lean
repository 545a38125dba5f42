import AttoHTTP.Library.Memory

/-!
# The build

The macros of `attohttp.h` and `attohttp_config.h`, the enumerations and the constant tables.
-/

namespace AttoHTTP
open Library

inductive AuthBuild
  | none
  | basic
  | digest
deriving DecidableEq, Repr

/-- The macros a build may set. Sizes and counts are held in 16 and 8 bits by the code. -/
structure Config where
  auth : AuthBuild
  gzipPages : Bool
  printfBufferSize : Nat
  urlBufferSize : Nat
  headerNameSize : Nat
  headerValueSize : Nat
  pageBuffers : Nat
  apiLevels : Nat
  pageUrlSize : Nat
  printf_ge : 128 ≤ printfBufferSize
  printf_lt : printfBufferSize < 2 ^ 16
  url_ge : 2 ≤ urlBufferSize
  url_lt : urlBufferSize < 2 ^ 16
  -- The names the server looks for end inside the buffer.
  name_ge : 15 ≤ headerNameSize
  name_lt : headerNameSize < 2 ^ 16
  value_ge : 2 ≤ headerValueSize
  value_lt : headerValueSize < 2 ^ 16
  pages_pos : 0 < pageBuffers
  pages_lt : pageBuffers < 2 ^ 8
  levels_pos : 0 < apiLevels
  levels_lt : apiLevels < 2 ^ 8
  pageUrl_pos : 0 < pageUrlSize

/-- The values `attohttp.h` gives the macros that the configuration leaves out. -/
def Config.default (auth : AuthBuild) : Config where
  auth := auth
  gzipPages := false
  printfBufferSize := 128
  urlBufferSize := 64
  headerNameSize := 64
  headerValueSize := 64
  pageBuffers := 8
  apiLevels := 3
  pageUrlSize := 32
  printf_ge := by decide
  printf_lt := by decide
  url_ge := by decide
  url_lt := by decide
  name_ge := by decide
  name_lt := by decide
  value_ge := by decide
  value_lt := by decide
  pages_pos := by decide
  pages_lt := by decide
  levels_pos := by decide
  levels_lt := by decide
  pageUrl_pos := by decide

def authRealm : List UInt8 := ascii "attoHTTP Server"

def authErrorMsg : List UInt8 := ascii ("<!DOCTYPE html><html><head><title>Invalid Request</title></head>" ++
  "<body><h1>Invalid Request</h1></body></html>")

def httpEol : List UInt8 := [13, 10]

def httpVersion10 : List UInt8 := ascii "HTTP/1.0"

def httpVersion11 : List UInt8 := ascii "HTTP/1.1"

/-! ## Enumerations -/

/-- `returncode_t`: the callback may return any value of the enumeration's integer type. -/
abbrev ReturnCode := UInt32

def statusServerSentEvents : ReturnCode := 1
def statusOk : ReturnCode := 200
def statusUnsupported : ReturnCode := 501
def statusUnauthorized : ReturnCode := 401
def statusInternalError : ReturnCode := 500
def statusNotFound : ReturnCode := 404
def statusUnknown : ReturnCode := 510

inductive AuthType
  | basic
  | digest
deriving DecidableEq, Repr

def authTypes : List AuthType := [.basic, .digest]

def AuthType.name : AuthType → List UInt8
  | .basic => ascii "Basic"
  | .digest => ascii "Digest"

inductive HttpMethod
  | get
  | post
  | put
  | delete
  | patch
  | notSupported
deriving DecidableEq, Repr

/-- The methods in the order `_attoHTTPParseMethod` tries them. -/
def knownMethods : List HttpMethod := [.get, .post, .put, .delete, .patch]

def HttpMethod.name : HttpMethod → List UInt8
  | .get => ascii "GET"
  | .post => ascii "POST"
  | .put => ascii "PUT"
  | .delete => ascii "DELETE"
  | .patch => ascii "PATCH"
  | .notSupported => []

inductive HttpVersion
  | unknown
  | v1_0
  | v1_1
deriving DecidableEq, Repr

inductive MimeType
  | applicationJson
  | textHtml
  | textPlain
  | textCss
  | applicationJavascript
  | applicationXWwwFormUrlencoded
  | imagePng
  | textEventStream
deriving DecidableEq, Repr

def MimeType.index : MimeType → Nat
  | .applicationJson => 0
  | .textHtml => 1
  | .textPlain => 2
  | .textCss => 3
  | .applicationJavascript => 4
  | .applicationXWwwFormUrlencoded => 5
  | .imagePng => 6
  | .textEventStream => 7

def MimeType.name : MimeType → List UInt8
  | .applicationJson => ascii "application/json"
  | .textHtml => ascii "text/html"
  | .textPlain => ascii "text/plain"
  | .textCss => ascii "text/css"
  | .applicationJavascript => ascii "application/javascript"
  | .applicationXWwwFormUrlencoded => ascii "application/x-www-form-urlencoded"
  | .imagePng => ascii "image/png"
  | .textEventStream => ascii "text/event-stream"

/-- The types below `ATTOHTTP_MIME_TYPES`, the ones request headers are compared with. -/
def mimeTypes : List MimeType :=
  [.applicationJson, .textHtml, .textPlain, .textCss, .applicationJavascript,
    .applicationXWwwFormUrlencoded, .imagePng]

end AttoHTTP
