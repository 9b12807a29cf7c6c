import GeoNS.Http.Parser

/-!
# Routes

The table of routes, the functions that register one, and the search for the
route of a request.
-/

namespace GeoNS.Http

open CString

structure RouteSegment where
  value : Bytes
  isParametric : Bool
  deriving DecidableEq, Repr

/-- The calls a route's callback makes for a request and its parameters. -/
abbrev HttpCallback := HttpRequest → StringMap → List Call

structure HttpRoute where
  segment : List RouteSegment
  segmentSize : UInt16
  callback : HttpCallback
  method : Bytes

structure HttpServer where
  publicDir : Bytes
  httpRoutes : List HttpRoute

-- ---------------------------------------------------------------------------
-- Registration
-- ---------------------------------------------------------------------------

/-- One segment of a pattern; its length is an `unsigned short`. -/
def createRouteSegment (segment : Bytes) : RouteSegment :=
  let length := (UInt16.ofNat segment.length).toNat
  if 2 ≤ length ∧ segment.head? = some 123 ∧ segment[length - 1]? = some 125 then
    ⟨segment.tail.take (length - 2), true⟩
  else ⟨segment, false⟩

/-- The routes after a call of `set_http_route`, `none` where it returns 0. -/
def setHttpRoute (routes : List HttpRoute) (method route : Bytes) (callback : HttpCallback) :
    Option (List HttpRoute) :=
  if maxHttpRoutes ≤ routes.length then none
  else if route = bytes "/" then some (routes ++ [⟨[⟨bytes "/", false⟩], 0, callback, method⟩])
  else
    let segments := (strtok 47 route).map createRouteSegment
    let segmentCount := UInt16.ofNat segments.length
    if segmentCount = 0 then none
    else some (routes ++ [⟨segments, segmentCount, callback, method⟩])

namespace Router

def get (routes : List HttpRoute) (route : Bytes) (callback : HttpCallback) :=
  setHttpRoute routes (bytes "GET") route callback

def post (routes : List HttpRoute) (route : Bytes) (callback : HttpCallback) :=
  setHttpRoute routes (bytes "POST") route callback

def put (routes : List HttpRoute) (route : Bytes) (callback : HttpCallback) :=
  setHttpRoute routes (bytes "PUT") route callback

def patch (routes : List HttpRoute) (route : Bytes) (callback : HttpCallback) :=
  setHttpRoute routes (bytes "PATCH") route callback

def delete (routes : List HttpRoute) (route : Bytes) (callback : HttpCallback) :=
  setHttpRoute routes (bytes "DELETE") route callback

def head (routes : List HttpRoute) (route : Bytes) (callback : HttpCallback) :=
  setHttpRoute routes (bytes "HEAD") route callback

def options (routes : List HttpRoute) (route : Bytes) (callback : HttpCallback) :=
  setHttpRoute routes (bytes "OPTIONS") route callback

def route (routes : List HttpRoute) (method route : Bytes) (callback : HttpCallback) :=
  setHttpRoute routes method route callback

end Router

-- ---------------------------------------------------------------------------
-- Search
-- ---------------------------------------------------------------------------

/-- The array the segments of a URI are stored in. -/
def maxRequestSegments : Nat := 128

/-- The comparison of one route's segments with the URI's, and the parameters
after it. -/
def matchSegments : List RouteSegment → List Bytes → StringMap → Bool × StringMap
  | _, [], params => (true, params)
  | [], _ :: _, params => (false, params)
  | rseg :: rsegs, seg :: segs, params =>
    if rseg.isParametric then matchSegments rsegs segs (stringMapPut params rseg.value seg)
    else if rseg.value = seg then matchSegments rsegs segs params
    else (false, params)

/-- The search from the route with index `i` on. -/
def findRoute (segments : List Bytes) :
    (i : Nat) → List HttpRoute → StringMap → Option (Nat × HttpRoute) × StringMap
  | _, [], params => (none, params)
  | i, route :: routes, params =>
    if route.segmentSize = UInt16.ofNat segments.length then
      match matchSegments route.segment segments params with
      | (true, params) => (some (i, route), params)
      | (false, params) => findRoute segments (i + 1) routes params
    else findRoute segments (i + 1) routes params

/-- The search for the URI that is the root. -/
def findRootRoute : (i : Nat) → List HttpRoute → Option (Nat × HttpRoute)
  | _, [] => none
  | i, route :: routes =>
    if route.segmentSize = 0 ∧ (route.segment.head?.bind (·.value.head?)) = some 47 then
      some (i, route)
    else findRootRoute (i + 1) routes

/-- The route with its index and the parameters; `none` is a write behind the
array of the segments. -/
def isRouteExists (routes : List HttpRoute) (uri : Bytes) (params : StringMap) :
    Option (Option (Nat × HttpRoute) × StringMap) :=
  if uri = bytes "/" then some (findRootRoute 0 routes, params)
  else
    let segments := strtok 47 uri
    if segments.length ≤ maxRequestSegments then some (findRoute segments 0 routes params)
    else none

def isRequestMethodAllowed (route : HttpRoute) (request : HttpRequest) : Bool :=
  (strstr route.method request.methodName).isSome

end GeoNS.Http
