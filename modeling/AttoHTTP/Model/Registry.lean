import AttoHTTP.Model.State

namespace AttoHTTP
open Library

def Page.empty (p : Page) : Bool := p.content.isNone

def setPage (cfg : Config) (p : Page) (url : List UInt8) (content : Option Mem) (size : UInt32)
    (type : MimeType) : Page :=
  { content := content, size := size, type := type, url := p.url.strncpy url cfg.pageUrlSize }

/-- `attoHTTPDefaultPage`, with the value it returns. -/
def setDefaultPage (cfg : Config) (url : List UInt8) (content : Option Mem) (size : UInt32)
    (type : MimeType) (g : Registry) : UInt8 × Registry :=
  if g.defaultPage.empty then
    (1, { g with defaultPage := setPage cfg g.defaultPage url content size type })
  else (0, g)

def addPage (cfg : Config) (url : List UInt8) (content : Option Mem) (size : UInt32)
    (type : MimeType) (g : Registry) : UInt8 × Registry :=
  match (List.range cfg.pageBuffers).find? fun i => (g.pages i).empty with
  | some i =>
      (1, { g with
        pages := fun k => if k = i then setPage cfg (g.pages i) url content size type
          else g.pages k })
  | none => (0, g)

def setEventsURL (cfg : Config) (url : List UInt8) (g : Registry) : UInt8 × Registry :=
  if g.eventsPage 0 = 0 then (1, { g with eventsPage := g.eventsPage.strncpy url cfg.pageUrlSize })
  else (0, g)

def defaultREST (callback : Option Callback) (g : Registry) : UInt8 × Registry :=
  match g.callback with
  | none => (1, { g with callback := callback })
  | some _ => (0, g)

def faviconIco : List UInt8 := [
  0x1f, 0x8b, 0x08, 0x08, 0xbf, 0x58, 0xcd, 0x55, 0x00, 0x03, 0x66, 0x61, 0x76, 0x69, 0x63, 0x6f,
  0x6e, 0x2e, 0x70, 0x6e, 0x67, 0x00, 0xeb, 0x0c, 0xf0, 0x73, 0xe7, 0xe5, 0x92, 0xe2, 0x62, 0x60,
  0x60, 0xe0, 0xf5, 0xf4, 0x70, 0x09, 0x02, 0xd2, 0x02, 0x20, 0xcc, 0xc1, 0x06, 0x24, 0xe5, 0x3f,
  0xff, 0x4f, 0x04, 0x52, 0x6c, 0x49, 0xde, 0xee, 0x2e, 0x0c, 0xff, 0x41, 0x70, 0xc1, 0xde, 0xe5,
  0x93, 0x81, 0x22, 0xb7, 0x3c, 0x5d, 0x1c, 0x43, 0x2c, 0x4e, 0x5f, 0xbd, 0x6c, 0xc8, 0xd5, 0x6c,
  0x20, 0xc2, 0xf6, 0x60, 0x3f, 0xab, 0xac, 0x92, 0xc7, 0x89, 0x77, 0xb2, 0x73, 0x6c, 0x9b, 0x9b,
  0x9b, 0x9a, 0x5f, 0x3c, 0x79, 0xf4, 0xce, 0xd2, 0xa6, 0xf5, 0xb9, 0x40, 0xfe, 0x02, 0xf7, 0x82,
  0x02, 0x51, 0xa3, 0x9d, 0x16, 0x2c, 0xff, 0xfc, 0x64, 0xa3, 0x94, 0xc5, 0xbc, 0xda, 0xff, 0x7d,
  0xd8, 0xf6, 0xe1, 0x63, 0xdc, 0xa4, 0x72, 0x65, 0xcf, 0x9a, 0x89, 0xd6, 0xfb, 0xce, 0xe4, 0x37,
  0xec, 0x7b, 0x2f, 0x78, 0xdc, 0x70, 0xc9, 0x14, 0x01, 0x27, 0x85, 0x2e, 0x25, 0x9e, 0xc3, 0x09,
  0xe2, 0x19, 0x9c, 0x0d, 0xce, 0x96, 0x7d, 0x87, 0x0b, 0x65, 0xfa, 0xd3, 0x73, 0x1d, 0xa6, 0xa5,
  0xce, 0x59, 0xd6, 0xf9, 0x7b, 0x5f, 0xf1, 0xbc, 0xf4, 0x65, 0x99, 0x5e, 0x0c, 0x67, 0x3e, 0xff,
  0x31, 0x7e, 0x60, 0xfb, 0x7a, 0x97, 0x10, 0x43, 0xb3, 0xc2, 0x0e, 0xb6, 0x1e, 0xc3, 0x9c, 0xdb,
  0xd3, 0x12, 0x25, 0x82, 0x38, 0x3e, 0x1a, 0xb5, 0xbd, 0xde, 0x75, 0xdd, 0xe1, 0xb2, 0xc9, 0x35,
  0xeb, 0x8a, 0x6b, 0xaa, 0x0b, 0xa6, 0x28, 0x31, 0x94, 0xc5, 0xba, 0xaf, 0x35, 0xed, 0x35, 0xbc,
  0x12, 0x35, 0x9f, 0xa9, 0xfc, 0xf4, 0x6a, 0x06, 0x86, 0x9a, 0xfb, 0xed, 0xcf, 0x2b, 0x23, 0xa6,
  0xb1, 0x96, 0xc6, 0xce, 0xaf, 0x6f, 0x29, 0xdf, 0xa8, 0xd1, 0xe5, 0x7c, 0xdb, 0x73, 0x52, 0x8d,
  0x5d, 0xd3, 0xb5, 0x59, 0xa9, 0x91, 0x41, 0x9a, 0xae, 0x9a, 0xaa, 0xab, 0x57, 0x3d, 0xda, 0x96,
  0xbb, 0xfc, 0xc0, 0xdb, 0xff, 0xd3, 0x5f, 0x32, 0x9e, 0x2d, 0x9f, 0xca, 0x56, 0xa3, 0xbd, 0xaf,
  0x0e, 0xe8, 0x4b, 0x06, 0x4f, 0x57, 0x3f, 0x97, 0x75, 0x4e, 0x09, 0x4d, 0x00, 0x91, 0x99, 0x0f,
  0x4f, 0x25, 0x01, 0x00, 0x00]

def faviconPath : List UInt8 := ascii "/favicon.ico"

def Page.clear (p : Page) : Page :=
  { url := p.url.set 0 0, content := none, size := 0, type := .textHtml }

/-- The tables `attoHTTPInit` leaves before it adds the icon. -/
def Registry.clear (cfg : Config) (g : Registry) : Registry where
  pages i := if i < cfg.pageBuffers then (g.pages i).clear else g.pages i
  defaultPage := g.defaultPage.clear
  callback := none
  eventsPage := g.eventsPage.set 0 0

def State.init (cfg : Config) (s : State) : State :=
  let s := s.initRun cfg
  { s with
    registry := (addPage cfg faviconPath (some (.ofBytes faviconIco))
      (UInt32.ofNat faviconIco.length) .imagePng (s.registry.clear cfg)).2 }

/-- A call that sets something up, with the arguments the user passes. -/
inductive Registration
  | addPage (url : List UInt8) (content : Option Mem) (size : UInt32) (type : MimeType)
  | defaultPage (url : List UInt8) (content : Option Mem) (size : UInt32) (type : MimeType)
  | eventsURL (url : List UInt8)
  | defaultREST (callback : Option Callback)

def Registration.apply (cfg : Config) (g : Registry) : Registration → UInt8 × Registry
  | .addPage url content size type => AttoHTTP.addPage cfg url content size type g
  | .defaultPage url content size type => setDefaultPage cfg url content size type g
  | .eventsURL url => setEventsURL cfg url g
  | .defaultREST callback => AttoHTTP.defaultREST callback g

def Registry.registerAll (cfg : Config) (g : Registry) (calls : List Registration) : Registry :=
  calls.foldl (fun g call => (call.apply cfg g).2) g

end AttoHTTP
