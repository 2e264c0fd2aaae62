import HttpRaftKv.Http.HttpResponse

/-!
# Middleware

Every request goes through the middlewares before it is routed, and a middleware
may throw a response in its place.  The response of a handler goes through them in
the opposite order.  The middleware that writes the log changes neither and is left
out.
-/

namespace HttpRaftKv.Http

structure CorsConfig where
  allowedOrigins : List Bytes
  allowedMethods : List Bytes
  allowedHeaders : List Bytes
  allowCredentials : Bool
  maxAge : ℕ
deriving DecidableEq, Repr

def CorsConfig.defaultConfig : CorsConfig where
  allowedOrigins := [ascii "*"]
  allowedMethods := [ascii "GET", ascii "POST", ascii "PUT", ascii "DELETE", ascii "OPTIONS"]
  allowedHeaders := [ascii "Content-Type", ascii "Authorization"]
  allowCredentials := false
  maxAge := 3600

namespace CorsMiddleware

def join (strings : List Bytes) (delimiter : Bytes) : Bytes :=
  (strings.intersperse delimiter).flatten

def addCorsHeaders (config : CorsConfig) (resp : HttpResponse) (origin : Bytes) : HttpResponse :=
  let resp := resp.addHeader (ascii "Access-Control-Allow-Origin") origin
  let resp := if config.allowCredentials then
      resp.addHeader (ascii "Access-Control-Allow-Credentials") (ascii "true")
    else resp
  let resp := if config.allowedMethods ≠ [] then
      resp.addHeader (ascii "Access-Control-Allow-Methods")
        (join config.allowedMethods (ascii ", "))
    else resp
  let resp := if config.allowedHeaders ≠ [] then
      resp.addHeader (ascii "Access-Control-Allow-Headers")
        (join config.allowedHeaders (ascii ", "))
    else resp
  resp.addHeader (ascii "Access-Control-Max-Age") (decimal config.maxAge)

def isOriginAllowed (config : CorsConfig) (origin : Bytes) : Bool :=
  config.allowedOrigins = [] || ascii "*" ∈ config.allowedOrigins ||
    origin ∈ config.allowedOrigins

def handlePreflightRequest (config : CorsConfig) (r : HttpRequest) (resp : HttpResponse) :
    HttpResponse :=
  let origin := r.getHeader (ascii "Origin")
  if !isOriginAllowed config origin then resp.setStatusCode .k403Forbidden
  else (addCorsHeaders config resp origin).setStatusCode .k204NoContent

/-- The response that is thrown if the request is one that a browser sends ahead. -/
def before (config : CorsConfig) (r : HttpRequest) : Option HttpResponse :=
  if r.method = .options then some (handlePreflightRequest config r (.create true)) else none

def after (config : CorsConfig) (resp : HttpResponse) : HttpResponse :=
  match config.allowedOrigins with
  | [] => resp
  | first :: _ =>
      if ascii "*" ∈ config.allowedOrigins then addCorsHeaders config resp (ascii "*")
      else addCorsHeaders config resp first

end CorsMiddleware

namespace RateLimiterMiddleware

/-- The response that is thrown if `isAllowed` answers no. -/
def before (allowed : Bool) (r : HttpRequest) : Option HttpResponse :=
  if allowed then none
  else
    some (((((((HttpResponse.create true).setVersion r.version).setStatusCode
      .k429TooManyRequests).setStatusMessage (ascii "Too Many Requests")).setContentType
      (ascii "text/plain")).setBody (ascii "Too Many Requests. Please try again later.")).addHeader
      (ascii "Retry-After") (ascii "60"))

end RateLimiterMiddleware

namespace MiddlewareChain

/-- The rate limiter comes before the check of the origin. -/
def processBefore (allowed : Bool) (r : HttpRequest) : Option HttpResponse :=
  (RateLimiterMiddleware.before allowed r).or (CorsMiddleware.before .defaultConfig r)

def processAfter (resp : HttpResponse) : HttpResponse :=
  CorsMiddleware.after .defaultConfig resp

end MiddlewareChain

end HttpRaftKv.Http
